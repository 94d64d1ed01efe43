/-
# Subtyping and calls on types

The subtypes of a type are those that chains of superclasses and interfaces lead to it from,
whether these chains come back to a type or meet again. A call that dispatches on the
receiver may run what dispatch finds for any of them, and nothing else: the types that are
met downwards are those that are subtypes upwards.
-/

import TacAnalysis.ClassHierarchyAnalysis
import TacAnalysis.Proofs.Resolution.WellFormed

namespace TacAnalysis

open Relation (ReflTransGen)

namespace Program

variable {program : Program} {cls sup : ClassId} {sub : Subsignature} {method : MethodId}

/-- The method with a body that a class itself declares under a subsignature. -/
def concreteMethod? (program : Program) (cls : ClassId) (sub : Subsignature) : Option MethodId :=
  (program.declaredMethod? cls sub).filter fun method => (program.methodDef method).hasBody

/-- Dispatch takes what the class itself declares, and goes on with its superclass where that
has no body. Chains of superclasses are never cut short. -/
theorem ClassesFit.dispatch_eq (classes : program.ClassesFit)
    (inTable : cls < program.classes.size) : program.dispatch cls sub =
      (program.concreteMethod? cls sub).or
        ((program.classDef cls).superclass.bind (program.dispatch · sub)) := by
  have goesOn : program.dispatchWithin sub program.classes.size (program.classDef cls).superclass =
      (program.classDef cls).superclass.bind (program.dispatch · sub) := by
    cases (program.classDef cls).superclass with
    | none => cases program.classes.size <;> rfl
    | some sup => rfl
  -- One more step than there are classes finds the same, and its first step is that of `cls`.
  rw [dispatch, ← dispatchWithin_of_chainWithin (classes.chains inTable) 1, dispatchWithin, goesOn,
    concreteMethod?]
  cases program.declaredMethod? cls sub with
  | none => rfl
  | some method => cases isAbstract : (program.methodDef method).isAbstract <;>
      simp [Option.filter, MethodDef.hasBody, isAbstract]

/-- Only classes of the table have methods. -/
theorem MembersFit.lt_size_of_dispatch (members : program.MembersFit)
    (dispatched : program.dispatch cls sub = some method) : cls < program.classes.size := by
  rcases Nat.lt_or_ge cls program.classes.size with inTable | pastEnd
  · exact inTable
  · have noSuperclass : (program.classDef cls).superclass = none := by
      rw [classDef, Array.getD, dif_neg (Nat.not_lt.mpr pastEnd)]
      rfl
    cases isSize : program.classes.size with
    | zero =>
        rw [dispatch, isSize] at dispatched
        cases dispatched
    | succ size =>
        rw [dispatch, isSize, dispatchWithin, noSuperclass] at dispatched
        have noOther : program.dispatchWithin sub size none = none := by cases size <;> rfl
        split at dispatched
        case h_1 found isDeclared =>
            obtain ⟨isMethod, isOwner, -⟩ := members.declaredMethod?_eq_some_iff.mp isDeclared
            exact isSize ▸ isOwner ▸ (members.methodFits isMethod).owner
        case h_2 =>
            rw [noOther] at dispatched
            cases dispatched

/-- A call that dispatches on its receiver may run what is found for the subtypes of the type
that it is declared on. -/
theorem Linked.mem_resolve_iff {invoke : Invoke} (linked : program.Linked)
    (members : program.MembersFit) (isDynamic : invoke.kind = .virtual ∨ invoke.kind = .interface) :
    method ∈ program.resolve invoke ↔ ∃ cls < program.classes.size,
      program.isSubtype cls invoke.target.owner = true ∧
        program.dispatch cls invoke.target.sub = some method := by
  have isResolved : program.resolve invoke = ascending ((program.descendants
      invoke.target.owner).filterMap (program.dispatch · invoke.target.sub)) := by
    rcases isDynamic with isKind | isKind <;> simp only [resolve, isKind]
  rw [isResolved, mem_ascending, List.mem_filterMap]
  refine exists_congr fun cls => ?_
  rw [← linked.isSubtype_iff]
  exact (and_iff_right_of_imp fun isFound => members.lt_size_of_dispatch isFound.2).symm

/-- Subtyping and calls on types follow what the types of a program are declared to extend and
to implement. -/
structure ResolvesBySubtyping (program : Program) : Prop where
  isSubtype_iff {cls sup : ClassId} : cls < program.classes.size →
    (program.isSubtype cls sup = true ↔ ReflTransGen program.Inherits cls sup)
  dispatch_eq {cls : ClassId} {sub : Subsignature} : cls < program.classes.size →
    program.dispatch cls sub = (program.concreteMethod? cls sub).or
      ((program.classDef cls).superclass.bind (program.dispatch · sub))
  mem_resolve_iff {invoke : Invoke} {method : MethodId} :
    invoke.kind = .virtual ∨ invoke.kind = .interface →
      (method ∈ program.resolve invoke ↔ ∃ cls < program.classes.size,
        program.isSubtype cls invoke.target.owner = true ∧
          program.dispatch cls invoke.target.sub = some method)
  isSet (invoke : Invoke) : (program.resolve invoke).Pairwise (· < ·)

/-- In the program that a text stands for, subtyping is what superclasses and interfaces lead
to, and a call on a type may run exactly what its subtypes have. -/
theorem resolvesBySubtyping_ofText {text : String} (isProgram : ofText text = .ok program) :
    program.ResolvesBySubtyping where
  isSubtype_iff _ := isSubtype_iff_path
  dispatch_eq := (classesFit_ofText isProgram).dispatch_eq
  mem_resolve_iff := (linked_ofText isProgram).mem_resolve_iff (membersFit_ofText isProgram)
  isSet invoke := by
    have isSetToo (found : Option MethodId) : found.toList.Pairwise (· < ·) := by
      cases found <;> simp
    unfold resolve
    simp only
    split
    case h_1 => exact isSetToo _
    case h_2 => exact isSetToo _
    case h_3 => exact pairwise_ascending _
    case h_4 => exact pairwise_ascending _

/-- The root class implements one of two interfaces that extend each other, so that all types
are subtypes of both. A call on the interface without methods may run what the other one and
a class that implements both declare. -/
theorem resolvesBySubtyping_ofText_cyclic : ∃ program,
    Program.ofText "interface I extends J { }
      interface J extends I { method m() : void { return; } }
      class java/lang/Object implements I { }
      class A implements I, J { method m() : void { return; } }
      class B { method m(I i) : void { invokeinterface i.<I: void m()>(); return; } }" =
        .ok program ∧
      (∀ cls < program.classes.size, program.isSubtype cls 1 = true) ∧
      (∃ invoke, program.stmt ⟨2, 0⟩ = .call invoke ∧ 0 ∈ program.resolve invoke ∧
        1 ∈ program.resolve invoke) ∧
      program.ResolvesBySubtyping := by
  have passes : (Program.ofText "interface I extends J { }
      interface J extends I { method m() : void { return; } }
      class java/lang/Object implements I { }
      class A implements I, J { method m() : void { return; } }
      class B { method m(I i) : void { invokeinterface i.<I: void m()>(); return; } }").toOption.any
      (fun program => (program.stmt ⟨2, 0⟩).invoke?.any fun invoke =>
        decide (invoke.kind = .interface ∧ invoke.target.owner = 1 ∧ program.classes.size = 5 ∧
          (∀ cls < program.classes.size, program.isSubtype cls 1 = true) ∧
          program.dispatch 2 invoke.target.sub = some 0 ∧
          program.dispatch 3 invoke.target.sub = some 1)) = true := by decide +kernel
  obtain ⟨program, isProgram, holds⟩ := exists_of_test passes
  obtain ⟨invoke, isInvoke, isShaped⟩ := (Option.any_eq_true _ _).mp holds
  obtain ⟨isKind, isOwner, hasClasses, areSubtypes, isFirst, isSecond⟩ := of_decide_eq_true isShaped
  have resolves := resolvesBySubtyping_ofText isProgram
  have isCall := Stmt.invoke?_eq_some_iff.mp isInvoke
  have runs {cls : ClassId} {method : MethodId} (inTable : cls < 5)
      (isFound : program.dispatch cls invoke.target.sub = some method) :
      method ∈ program.resolve invoke := by
    rw [← hasClasses] at inTable
    exact (resolves.mem_resolve_iff (.inr isKind)).mpr
      ⟨cls, inTable, isOwner ▸ areSubtypes cls inTable, isFound⟩
  exact ⟨program, isProgram, areSubtypes,
    ⟨invoke, isCall, runs (by decide) isFirst, runs (by decide) isSecond⟩, resolves⟩

end Program

end TacAnalysis
