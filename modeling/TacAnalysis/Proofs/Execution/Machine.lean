/-
# Execution of programs

What a program does when it runs: a stack of frames, the objects allocated so far
and the static fields. Only references are followed closely. A number may be any
number that its type could hold, control may take any way that a statement offers,
and the index of an array element may be anything, so that a run of a program on
actual numbers is one of the runs considered here.

A machine is stuck when a statement reads an unassigned variable, when it accesses
or calls anything but an object, and when a call has no method to run.
-/

import Mathlib.Logic.Function.Basic
import TacAnalysis.Proofs.PointsTo.Findings

namespace TacAnalysis.Execution

open PointsTo (Resolves)

/-- The position of an object among the allocated ones. -/
abbrev Address := Nat

/-- What a variable, a field or an element holds. -/
inductive Datum where
  | number (value : Int)
  | null
  | reference (address : Address)
  deriving DecidableEq, Inhabited

/-- An object: the program point that allocated it, its type, its fields, and its
elements by their index. -/
structure Instance where
  site : Site
  ty : Ty
  fields : FieldId → Datum
  elements : Datum → Datum

/-- A method being executed: the position of its next statement, or of the call
that it waits for, and the variables assigned so far. -/
structure Frame where
  method : MethodId
  index : Nat
  vars : VarId → Option Datum

/-- A program being executed, the method called last at the head of the stack. -/
structure Machine where
  stack : List Frame
  objects : List Instance
  statics : FieldId → Datum

namespace Frame

variable (frame : Frame)

/-- The program point that a frame is at. -/
def site : Site := ⟨frame.method, frame.index⟩

/-- Goes on at another position. -/
def goto (index : Nat) : Frame := { frame with index }

/-- Gives a value to a variable, or takes it away, and goes on with the next
statement. -/
def assign (var : VarId) (datum : Option Datum) : Frame :=
  { frame with vars := Function.update frame.vars var datum, index := frame.index + 1 }

variable {frame}

theorem vars_assign {var : VarId} {datum : Option Datum} :
    (frame.assign var datum).vars = Function.update frame.vars var datum := rfl

end Frame

/-- The variables of a method that has been called: its receiver holds the object
it is called on, if any, and each parameter what the argument at its position
does. -/
def calleeVars (method : MethodDef) (receiver : Option Datum) (vars : VarId → Option Datum)
    (arguments : List VarId) (var : VarId) : Option Datum :=
  if method.this = some var then receiver
  else ((arguments.zip method.params).find? fun entry => entry.2 = var).bind fun entry =>
    vars entry.1

/-- What an assignment may give to its target. -/
inductive Computes (machine : Machine) (vars : VarId → Option Datum) : Stmt → Datum → Prop where
  | int {target : VarId} {value : Int32} :
      Computes machine vars (.literal target (.int value)) (.number value.toInt)
  | null {target : VarId} : Computes machine vars (.literal target .null) .null
  | copy {target source : VarId} {datum : Datum} : vars source = some datum →
      Computes machine vars (.copy target source) datum
  /-- A reference stays the same when it is cast. -/
  | cast {target source : VarId} {ty : Ty} {datum : Datum} : vars source = some datum →
      Computes machine vars (.cast target ty source) datum
  /-- A number may change when it is cast. -/
  | convert {target source : VarId} {ty : Ty} {value : Int} (result : Int) :
      vars source = some (.number value) →
      Computes machine vars (.cast target ty source) (.number result)
  | binary {target : VarId} {exp : BinExp} {left right : Datum} (result : Int) :
      vars exp.left = some left → vars exp.right = some right →
      Computes machine vars (.binary target exp) (.number result)
  | loadStatic {target : VarId} {field : FieldId} :
      Computes machine vars (.loadField target none field) (machine.statics field)
  | loadField {target base : VarId} {field : FieldId} {address : Address} {object : Instance} :
      vars base = some (.reference address) → machine.objects[address]? = some object →
      Computes machine vars (.loadField target (some base) field) (object.fields field)
  | loadElement {target base index : VarId} {position : Datum} {address : Address}
      {object : Instance} :
      vars base = some (.reference address) → vars index = some position →
      machine.objects[address]? = some object →
      Computes machine vars (.loadArray target base index) (object.elements position)

/-- What a frame may return, if it returns now. Going past the end of the body is
returning without a value. -/
inductive Returns (program : Program) (frame : Frame) : Option Datum → Prop where
  | value {var : VarId} {datum : Datum} : program.stmt frame.site = .ret (some var) →
      frame.vars var = some datum → Returns program frame (some datum)
  | nothing : program.stmt frame.site = .ret none → Returns program frame none
  | pastEnd : (program.methodDef frame.method).body.size ≤ frame.index →
      Returns program frame none

/-- The variable to which a call that a frame waits for assigns what is returned. -/
def Frame.resume (frame : Frame) (invoke : Invoke) (returned : Option Datum) : Frame :=
  match invoke.result with
  | none => frame.goto (frame.index + 1)
  | some result => frame.assign result returned

/-- A step of the execution. -/
inductive Step (program : Program) : Machine → Machine → Prop where
  | skip {machine : Machine} {frame : Frame} {callers : List Frame} :
      machine.stack = frame :: callers → program.stmt frame.site = .nop →
      frame.index < (program.methodDef frame.method).body.size →
      Step program machine { machine with stack := frame.goto (frame.index + 1) :: callers }
  | assign {machine : Machine} {frame : Frame} {callers : List Frame} {target : VarId}
      {datum : Datum} :
      machine.stack = frame :: callers → (program.stmt frame.site).def? = some target →
      Computes machine frame.vars (program.stmt frame.site) datum →
      Step program machine { machine with stack := frame.assign target datum :: callers }
  | jump {machine : Machine} {frame : Frame} {callers : List Frame} {position : Nat} :
      machine.stack = frame :: callers → (program.stmt frame.site).jumps ≠ [] →
      (∀ var ∈ (program.stmt frame.site).uses, frame.vars var ≠ none) →
      (position ∈ (program.stmt frame.site).jumps ∨
        (program.stmt frame.site).fallsThrough = true ∧ position = frame.index + 1) →
      Step program machine { machine with stack := frame.goto position :: callers }
  /-- A new object holds no references. -/
  | new {machine : Machine} {frame : Frame} {callers : List Frame} {target : VarId} {ty : Ty}
      {fields : FieldId → Datum} {elements : Datum → Datum} :
      machine.stack = frame :: callers → program.stmt frame.site = .new target ty →
      (∀ field address, fields field ≠ .reference address) →
      (∀ index address, elements index ≠ .reference address) →
      Step program machine { machine with
        stack := frame.assign target (some (.reference machine.objects.length)) :: callers
        objects := machine.objects ++ [⟨frame.site, ty, fields, elements⟩] }
  | storeStatic {machine : Machine} {frame : Frame} {callers : List Frame} {source : VarId}
      {field : FieldId} {datum : Datum} :
      machine.stack = frame :: callers → program.stmt frame.site = .storeField none field source →
      frame.vars source = some datum →
      Step program machine { machine with
        stack := frame.goto (frame.index + 1) :: callers
        statics := Function.update machine.statics field datum }
  | storeField {machine : Machine} {frame : Frame} {callers : List Frame} {base source : VarId}
      {field : FieldId} {address : Address} {object : Instance} {datum : Datum} :
      machine.stack = frame :: callers →
      program.stmt frame.site = .storeField (some base) field source →
      frame.vars base = some (.reference address) → machine.objects[address]? = some object →
      frame.vars source = some datum →
      Step program machine { machine with
        stack := frame.goto (frame.index + 1) :: callers
        objects := machine.objects.set address
          { object with fields := Function.update object.fields field datum } }
  | storeElement {machine : Machine} {frame : Frame} {callers : List Frame}
      {base index source : VarId} {address : Address} {object : Instance} {position datum : Datum} :
      machine.stack = frame :: callers → program.stmt frame.site = .storeArray base index source →
      frame.vars base = some (.reference address) → machine.objects[address]? = some object →
      frame.vars index = some position → frame.vars source = some datum →
      Step program machine { machine with
        stack := frame.goto (frame.index + 1) :: callers
        objects := machine.objects.set address
          { object with elements := Function.update object.elements position datum } }
  | callStatic {machine : Machine} {frame : Frame} {callers : List Frame} {invoke : Invoke}
      {method : MethodId} :
      machine.stack = frame :: callers → program.stmt frame.site = .call invoke →
      invoke.kind = .static → (∀ var ∈ invoke.args, frame.vars var ≠ none) →
      program.dispatch invoke.target.owner invoke.target.sub = some method →
      Step program machine { machine with stack :=
        ⟨method, 0, calleeVars (program.methodDef method) none frame.vars invoke.args⟩ ::
          frame :: callers }
  | callOn {machine : Machine} {frame : Frame} {callers : List Frame} {invoke : Invoke}
      {receiver : VarId} {address : Address} {object : Instance} {method : MethodId} :
      machine.stack = frame :: callers → program.stmt frame.site = .call invoke →
      invoke.kind ≠ .static → invoke.receiver = some receiver →
      frame.vars receiver = some (.reference address) → machine.objects[address]? = some object →
      (∀ var ∈ invoke.args, frame.vars var ≠ none) → Resolves program invoke object.ty method →
      Step program machine { machine with stack :=
        ⟨method, 0, calleeVars (program.methodDef method) (some (.reference address)) frame.vars
          invoke.args⟩ :: frame :: callers }
  | ret {machine : Machine} {callee caller : Frame} {callers : List Frame} {invoke : Invoke}
      {returned : Option Datum} :
      machine.stack = callee :: caller :: callers → Returns program callee returned →
      program.stmt caller.site = .call invoke →
      Step program machine { machine with stack := caller.resume invoke returned :: callers }
  | halt {machine : Machine} {frame : Frame} {returned : Option Datum} :
      machine.stack = [frame] → Returns program frame returned →
      Step program machine { machine with stack := [] }

/-- An entry method is about to be executed, and there are no references yet. -/
structure Starts (program : Program) (machine : Machine) : Prop where
  entry : ∃ method ∈ program.entries, ∃ vars, machine.stack = [⟨method, 0, vars⟩] ∧
    ∀ var address, vars var ≠ some (.reference address)
  objects : machine.objects = []
  statics : ∀ field address, machine.statics field ≠ .reference address

/-- A run of a program, the last machine first. -/
inductive Run (program : Program) : List Machine → Prop where
  | start {machine : Machine} : Starts program machine → Run program [machine]
  | step {machine next : Machine} {past : List Machine} : Run program (machine :: past) →
      Step program machine next → Run program (next :: machine :: past)

/-- Where the object at an address was allocated. -/
def Machine.siteAt? (machine : Machine) (address : Address) : Option Site :=
  machine.objects[address]?.map Instance.site

/-- Only variables of a reference type hold references. -/
def Machine.ReferencesTyped (program : Program) (machine : Machine) : Prop :=
  ∀ frame ∈ machine.stack, ∀ var address, frame.vars var = some (.reference address) →
    program.isReference var = true

end TacAnalysis.Execution
