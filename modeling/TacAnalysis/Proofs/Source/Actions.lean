/-
# Statements are read as they are written

A statement is written on one line, with one blank between its words, and read back with no
label: none is followed by two colons, nor by anything else that is written after the first
name of a statement. The alternatives that start with a keyword are out of the question where
a name stands instead, except for stores to static fields of classes with a slash in their
names and with a statement of one word before that slash.
-/

import TacAnalysis.Proofs.Source.Operands

namespace TacAnalysis.Source

section Written

/-- One case of a switch, as it is written before the default. -/
def renderEntry (entry : Int32 × String) : String :=
  toString entry.1.toInt ++ " -> " ++ entry.2 ++ ", "

/-- A statement without its label, as it is written. -/
def Action.render : Action → String
  | .nop => "nop"
  | .assign target operand => target ++ " = " ++ operand.render
  | .storeField path source => path.render ++ " = " ++ source
  | .storeElement base index source => base ++ "[" ++ index ++ "] = " ++ source
  | .call exp => exp.render
  | .branch op left right label =>
      "if " ++ left ++ " " ++ op.symbol ++ " " ++ right ++ " goto " ++ label
  | .goto label => "goto " ++ label
  | .switch scrutinee cases default =>
      "switch " ++ scrutinee ++ " \x7b " ++ String.join (cases.map renderEntry) ++
        "default -> " ++ default ++ " \x7d"
  | .ret none => "return"
  | .ret (some name) => "return " ++ name

/-- The names in a statement that is no jump are spelled as such. -/
def Action.IsSpelled : Action → Prop
  | .assign target operand => IsIdentifier target ∧ operand.IsSpelled
  | .storeField path source => path.IsSpelled ∧ IsIdentifier source
  | .storeElement base index source =>
      IsIdentifier base ∧ IsIdentifier index ∧ IsIdentifier source
  | .call exp => exp.IsSpelled
  | .ret value => ∀ name ∈ value, IsIdentifier name
  | .nop | .branch .. | .goto _ | .switch .. => True

/-- A statement names the statements that come next. -/
def Action.isJump : Action → Bool
  | .branch .. | .goto _ | .switch .. => true
  | .nop | .assign .. | .storeField .. | .storeElement .. | .call _ | .ret _ => false

/-- The names that a statement and its operand start with, where a keyword might stand
instead. -/
def Action.heads : Action → List String
  | .assign target operand => target :: operand.heads
  | .storeField path _ => [path.head]
  | .storeElement base _ _ => [base]
  | .nop | .call _ | .branch .. | .goto _ | .switch .. | .ret _ => []

/-- A keyword that is a statement or an operand is taken for one at the front of the class of
a field. -/
def Action.IsCaptured : Action → Prop
  | .assign _ operand => operand.IsCaptured
  | .storeField path _ => Opens "nop" path.head ∨ Opens "return" path.head
  | _ => False

end Written

namespace Reader

variable {text rest : List Char} {name : String}

section Actions

variable {what : Action}

/-- At the name of a variable, an action is a store or an assignment. -/
theorem action_plain (isPlain : IsPlain name) (ends : rest.head?.any isClassNameChar = false) :
    action (name.toList ++ rest) =
      firstOf [fieldStore, elementStore, assignment] (name.toList ++ rest) :=
  action_head isPlain.isHead (isPlain.not_opens _) (isPlain.not_opens _) ends
    fun isIn => absurd isIn isPlain.isIdentifier.slash_not_mem

theorem toList_assign {target : String} {value : Operand} :
    (Action.assign target value).render.toList ++ [';'] =
      target.toList ++ ' ' :: '=' :: ' ' :: (value.render.toList ++ [';']) := by
  simp [Action.render]

theorem toList_storeField {path : FieldPath} {source : String} :
    (Action.storeField path source).render.toList ++ [';'] =
      path.head.toList ++ (path.tail.toList ++ ' ' :: '=' :: ' ' :: (source.toList ++ [';'])) := by
  simp [Action.render, FieldPath.toList_render]

theorem toList_storeElement {base index source : String} :
    (Action.storeElement base index source).render.toList ++ [';'] = base.toList ++
      '[' :: (index.toList ++ ']' :: ' ' :: '=' :: ' ' :: (source.toList ++ [';'])) := by
  simp [Action.render]

theorem toList_ret : (Action.ret (some name)).render.toList ++ [';'] =
    "return".toList ++ ' ' :: (name.toList ++ [';']) := by
  simp [Action.render]

theorem action_assign {target : String} {value : Operand} {unread : List Char}
    (isTarget : IsPlain target) {read : Operand}
    (isOperand : operand (value.render.toList ++ [';']) = .matched read unread) :
    action ((Action.assign target value).render.toList ++ [';']) =
      .matched (.assign target read) unread := by
  have isName := isTarget.isIdentifier
  have notField : fieldPath (target.toList ++
      ' ' :: '=' :: ' ' :: (value.render.toList ++ [';'])) = .unmatched :=
    fieldPath_name isName rfl rfl rfl
  have notElement : element (target.toList ++
      ' ' :: '=' :: ' ' :: (value.render.toList ++ [';'])) = .unmatched :=
    element_name isName rfl rfl
  rw [toList_assign]
  refine (action_plain isTarget rfl).trans ?_
  refine (orElse_eq_of_unmatched (bind_eq_of_unmatched notField)).trans ?_
  refine (orElse_eq_of_unmatched (bind_eq_of_unmatched notElement)).trans ?_
  apply orElse_eq_of_matched
  refine (bind_eq_of_matched (wordOf_append isName rfl)).trans ?_
  refine (bind_eq_of_matched (show mark "=" (' ' :: '=' :: _) = .matched () _ from rfl)).trans ?_
  exact bind_eq_of_matched (operand_space.trans isOperand)

theorem action_storeField {path : FieldPath} {source : String} (isPath : path.IsSpelled)
    (isHead : IsHead path.head) (isSource : IsIdentifier source) (notNop : ¬ Opens "nop" path.head)
    (notReturn : ¬ Opens "return" path.head) :
    action ((Action.storeField path source).render.toList ++ [';']) =
      .matched (.storeField path source) [';'] := by
  have isRead : fieldPath (path.head.toList ++ (path.tail.toList ++
      ' ' :: '=' :: ' ' :: (source.toList ++ [';']))) =
        .matched path (' ' :: '=' :: ' ' :: (source.toList ++ [';'])) := by
    rw [← List.append_assoc, ← FieldPath.toList_render]
    exact fieldPath_append isPath rfl
  have oneLine : '\n' ∉ path.tail.toList ++ ' ' :: '=' :: ' ' :: (source.toList ++ [';']) := by
    simp [isPath.oneLine, isSource.oneLine]
  rw [toList_storeField]
  refine (action_head isHead notNop notReturn FieldPath.tail_ends fun _ => oneLine).trans ?_
  apply orElse_eq_of_matched
  refine (bind_eq_of_matched isRead).trans ?_
  refine (bind_eq_of_matched (show mark "=" (' ' :: '=' :: _) = .matched () _ from rfl)).trans ?_
  exact bind_eq_of_matched (identifier_space.trans (wordOf_append isSource rfl))

theorem action_storeElement {base index source : String} (isBase : IsPlain base)
    (isIndex : IsIdentifier index) (isSource : IsIdentifier source) :
    action ((Action.storeElement base index source).render.toList ++ [';']) =
      .matched (.storeElement base index source) [';'] := by
  rw [toList_storeElement]
  refine (action_plain isBase rfl).trans ?_
  refine (orElse_eq_of_unmatched (bind_eq_of_unmatched
    (fieldPath_name isBase.isIdentifier rfl rfl rfl))).trans ?_
  apply orElse_eq_of_matched
  refine (bind_eq_of_matched (element_append isBase.isIdentifier isIndex)).trans ?_
  refine (bind_eq_of_matched (show mark "=" (' ' :: '=' :: _) = .matched () _ from rfl)).trans ?_
  exact bind_eq_of_matched (identifier_space.trans (wordOf_append isSource rfl))

theorem action_call {exp : CallExp} (isSpelled : exp.IsSpelled) :
    action ((Action.call exp).render.toList ++ [';']) = .matched (.call exp) [';'] := by
  have isCall : call ((Action.call exp).render.toList ++ [';']) = .matched exp [';'] :=
    call_append isSpelled
  rw [Action.render, exp.toList_render, String.toList_append] at isCall ⊢
  refine (orElse_eq_of_unmatched rfl).trans ?_
  refine (orElse_eq_of_unmatched rfl).trans ?_
  refine (orElse_eq_of_unmatched rfl).trans ?_
  refine (orElse_eq_of_unmatched rfl).trans ?_
  refine (orElse_eq_of_unmatched rfl).trans ?_
  exact orElse_eq_of_matched (bind_eq_of_matched isCall)

theorem action_ret {value : Option String} (isValue : ∀ name ∈ value, IsIdentifier name) :
    action ((Action.ret value).render.toList ++ [';']) = .matched (.ret value) [';'] := by
  cases value with
  | none => rfl
  | some name =>
      have isName : optional identifier (' ' :: (name.toList ++ [';'])) =
          .matched (some name) [';'] :=
        orElse_eq_of_matched (bind_eq_of_matched
          (identifier_space.trans (wordOf_append (isValue name rfl) rfl)))
      rw [toList_ret]
      refine (orElse_eq_of_unmatched rfl).trans ?_
      apply orElse_eq_of_matched
      exact bind_eq_of_matched ((bind_eq_of_matched (keyword_append rfl rfl)).trans isName)

/-- A statement is read as it is written, unless a keyword captures the class of a field. -/
theorem action_append (isSpelled : what.IsSpelled) (notJump : what.isJump = false)
    (notKeywords : ∀ name ∈ what.heads, name ∉ keywords) (notCaptured : ¬ what.IsCaptured) :
    action (what.render.toList ++ [';']) = .matched what [';'] := by
  cases what with
  | nop => rfl
  | assign target value =>
      obtain ⟨notKeyword, notKeywords⟩ := List.forall_mem_cons.mp notKeywords
      exact action_assign ⟨isSpelled.1, notKeyword⟩
        (operand_append isSpelled.2 notKeywords notCaptured)
  | storeField path source =>
      have isHead := isSpelled.1.isHead (notKeywords path.head (List.mem_singleton_self _))
      obtain ⟨notNop, notReturn⟩ := not_or.mp notCaptured
      exact action_storeField isSpelled.1 isHead isSpelled.2 notNop notReturn
  | storeElement base index source =>
      have isBase : IsPlain base := ⟨isSpelled.1, notKeywords base (List.mem_singleton_self _)⟩
      exact action_storeElement isBase isSpelled.2.1 isSpelled.2.2
  | call exp => exact action_call isSpelled
  | ret value => exact action_ret isSpelled
  | _ => cases notJump

/-- Where a keyword captures the class of a field, an action ends before a slash. -/
theorem action_captured (isSpelled : what.IsSpelled)
    (notKeywords : ∀ name ∈ what.heads, name ∉ keywords) (isCaptured : what.IsCaptured) :
    ∃ read unread, action (what.render.toList ++ [';']) = .matched read unread ∧ Stuck unread := by
  cases what with
  | assign target value =>
      obtain ⟨notKeyword, notKeywords⟩ := List.forall_mem_cons.mp notKeywords
      cases value with
      | field path =>
          have isHead := isSpelled.2.isHead (notKeywords path.head (List.mem_singleton_self _))
          have oneLine : '\n' ∉ path.tail.toList ++ [';'] := by simp [isSpelled.2.oneLine]
          obtain ⟨unread, isOperand, stuck⟩ :=
            operand_opened isHead isCaptured FieldPath.tail_ends oneLine
          rw [← List.append_assoc, ← FieldPath.toList_render] at isOperand
          exact ⟨_, unread, action_assign ⟨isSpelled.1, notKeyword⟩ isOperand, stuck⟩
      | _ => exact absurd isCaptured id
  | storeField path source =>
      have isHead := isSpelled.1.isHead (notKeywords path.head (List.mem_singleton_self _))
      have oneLine : '\n' ∉ path.tail.toList ++ ' ' :: '=' :: ' ' :: (source.toList ++ [';']) := by
        simp [isSpelled.1.oneLine, isSpelled.2.oneLine]
      rw [toList_storeField]
      exact action_opened isHead isCaptured FieldPath.tail_ends oneLine
  | _ => exact absurd isCaptured id

end Actions

section Lines

variable {what : Action}

theorem label_plain (isName : IsIdentifier name) (ends : rest.head?.any isWordChar = false)
    (notLabel : mark ":" rest = .unmatched) : label (name.toList ++ rest) = .unmatched :=
  label_name isName.isClassName ends (fun isIn => absurd isIn isName.slash_not_mem)
    fun unread isLabel => by rw [notLabel] at isLabel; cases isLabel

theorem mark_space {sign : String} : mark sign (' ' :: text) = mark sign text := rfl

theorem label_call {exp : CallExp} (isSpelled : exp.IsSpelled) :
    label (exp.render.toList ++ [';']) = .unmatched := by
  have isWord : IsIdentifier ("invoke" ++ exp.kind.render) := by
    cases exp.kind <;> exact ⟨'i', _, rfl, rfl, List.all_eq_true.mp rfl⟩
  rw [exp.toList_render]
  refine label_plain isWord rfl (mark_space.trans ?_)
  cases isReceiver : exp.receiver with
  | none =>
      rw [Option.elim_none, renderSignature]
      simp only [String.toList_append, List.append_assoc]
      rfl
  | some receiver =>
      rw [Option.elim_some, String.toList_append, List.append_assoc]
      exact mark_name (isSpelled.receiver receiver isReceiver).isClassName (by decide)

/-- No label is read at the front of a statement. -/
theorem label_append (isSpelled : what.IsSpelled) (notJump : what.isJump = false) :
    label (what.render.toList ++ [';']) = .unmatched := by
  cases what with
  | nop => rfl
  | assign target value =>
      rw [toList_assign]
      exact label_plain isSpelled.1 rfl rfl
  | storeField path source =>
      have oneLine : '\n' ∉ path.tail.toList ++ ' ' :: '=' :: ' ' :: (source.toList ++ [';']) := by
        simp [isSpelled.1.oneLine, isSpelled.2.oneLine]
      rw [toList_storeField]
      refine label_name isSpelled.1.isClassName (head?_isWordChar FieldPath.tail_ends)
        (fun _ => oneLine) fun unread isLabel => ?_
      cases path with
      | ofBase base field =>
          rw [FieldPath.tail, String.toList_append] at isLabel
          cases isLabel
      | ofClass owner field =>
          rw [FieldPath.tail, String.toList_append] at isLabel
          cases isLabel
          rfl
  | storeElement base index source =>
      rw [toList_storeElement]
      exact label_plain isSpelled.1 rfl rfl
  | call exp => exact label_call isSpelled
  | ret value =>
      cases value with
      | none => rfl
      | some name =>
          rw [toList_ret]
          refine label_plain ⟨'r', _, rfl, rfl, List.all_eq_true.mp rfl⟩ rfl (mark_space.trans ?_)
          exact mark_name (isSpelled name rfl).isClassName (by decide)
  | _ => cases notJump

/-- A statement is read as it is written, up to its semicolon. -/
theorem line_render (isSpelled : what.IsSpelled) (notJump : what.isJump = false)
    (notKeywords : ∀ name ∈ what.heads, name ∉ keywords) (notCaptured : ¬ what.IsCaptured) :
    line (what.render ++ ";").toList = .matched ⟨none, what⟩ [] := by
  rw [String.toList_append]
  exact line_append (label_append isSpelled notJump)
    (action_append isSpelled notJump notKeywords notCaptured)

/-- Where a keyword captures the class of a field, no statement is read. -/
theorem line_captured (isSpelled : what.IsSpelled) (notJump : what.isJump = false)
    (notKeywords : ∀ name ∈ what.heads, name ∉ keywords) (isCaptured : what.IsCaptured) :
    line (what.render ++ ";").toList = .unmatched := by
  obtain ⟨read, unread, isAction, stuck⟩ := action_captured isSpelled notKeywords isCaptured
  rw [String.toList_append]
  exact line_stuck (label_append isSpelled notJump) isAction stuck

end Lines

section Reading

theorem yields_methodName : methodName.Yields fun name => IsClassName name.owner ∧
    IsIdentifier name.sub.name ∧ ∀ ty ∈ name.sub.ret :: name.sub.params, ty.IsSpelled := by
  refine yields_bind fun _ => yields_className.bind fun owner isOwner => yields_bind fun _ => ?_
  refine yields_type.bind fun ret isRet => yields_identifier.bind fun name isName => ?_
  refine yields_type.parenthesized.bind fun params areParams => yields_bind fun _ => ?_
  exact yields_pure ⟨isOwner, isName, List.forall_mem_cons.mpr ⟨isRet, areParams⟩⟩

/-- The names in a call that is read are spelled as such. -/
theorem yields_spelledCall : call.Yields CallExp.IsSpelled := by
  apply Yields.orElse
  · refine yields_bind fun _ => yields_methodName.bind fun target isTarget => ?_
    obtain ⟨isOwner, isName, areTypes⟩ := isTarget
    refine yields_identifier.parenthesized.bind fun args areArgs => yields_pure ?_
    exact ⟨⟨fun _ => rfl, fun _ => rfl⟩, nofun, isOwner, isName, areTypes, areArgs⟩
  · refine yields_oneOfKeywords.bind fun kind isKind => ?_
    refine yields_identifier.bind fun receiver isReceiver => yields_bind fun _ => ?_
    refine yields_methodName.bind fun target isTarget => ?_
    obtain ⟨isOwner, isName, areTypes⟩ := isTarget
    have isDynamic : kind ≠ .static := by
      rintro rfl
      exact absurd isKind (by decide)
    refine yields_identifier.parenthesized.bind fun args areArgs => yields_pure ?_
    refine ⟨⟨fun isStatic => absurd isStatic isDynamic, nofun⟩, ?_, isOwner, isName, areTypes,
      areArgs⟩
    rintro _ ⟨⟩
    exact isReceiver

theorem yields_fieldPath : fieldPath.Yields FieldPath.IsSpelled := by
  apply Yields.orElse
  · exact yields_className.bind fun owner isOwner => yields_bind fun _ =>
      yields_identifier.bind fun field isField => yields_pure ⟨isOwner, isField⟩
  · exact yields_identifier.bind fun base isBase => yields_bind fun _ =>
      yields_identifier.bind fun field isField => yields_pure ⟨isBase, isField⟩

theorem yields_element :
    element.Yields fun access => IsIdentifier access.1 ∧ IsIdentifier access.2 :=
  yields_identifier.bind fun _ isBase => yields_identifier.between.bind fun _ isIndex =>
    yields_pure ⟨isBase, isIndex⟩

/-- The names in an operand that is read are spelled as such. -/
theorem yields_spelledOperand : operand.Yields Operand.IsSpelled := by
  have literals {α : Type} (reader : Reader α) {f : α → Literal} :
      ((fun value => Operand.literal (f value)) <$> reader).Yields Operand.IsSpelled :=
    (yields_true reader).map fun _ _ => trivial
  refine yields_firstOf ?_
  simp only [List.forall_mem_cons]
  refine ⟨?new, yields_spelledCall.map fun _ isSpelled => isSpelled, ?cast, literals _, literals _,
    yields_fieldPath.map fun _ isSpelled => isSpelled,
    yields_element.map fun _ areNames => areNames, ?binary,
    yields_identifier.map fun _ isName => isName, nofun⟩
  case new => exact (yields_bind fun _ => yields_type).map fun _ isSpelled => isSpelled
  case cast =>
    exact yields_type.between.bind fun _ isType => yields_identifier.bind fun _ isName =>
      yields_pure ⟨isType, isName⟩
  case binary =>
    exact yields_identifier.bind fun _ isLeft => yields_bind fun _ =>
      yields_identifier.bind fun _ isRight => yields_pure ⟨isLeft, isRight⟩

/-- The names in a statement that is read are spelled as such. -/
theorem yields_spelledAction : action.Yields Action.IsSpelled := by
  have value : (optional identifier).Yields fun value => ∀ name ∈ value, IsIdentifier name := by
    apply Yields.orElse
    · refine yields_identifier.map fun name isName => ?_
      rintro _ ⟨⟩
      exact isName
    · exact yields_pure nofun
  refine yields_firstOf ?_
  simp only [List.forall_mem_cons]
  refine ⟨(yields_true _).map fun _ _ => trivial,
    (yields_bind fun _ => value).map fun _ areNames => areNames,
    (yields_true _).map fun _ _ => trivial, ?branch, yields_switch fun _ _ _ => trivial,
    yields_spelledCall.map fun _ isSpelled => isSpelled, ?fieldStore, ?elementStore, ?assignment,
    nofun⟩
  case branch =>
    exact yields_bind fun _ => yields_bind fun _ => yields_bind fun _ => yields_bind fun _ =>
      yields_bind fun _ => yields_bind fun _ => yields_pure trivial
  case fieldStore =>
    exact yields_fieldPath.bind fun _ isPath => yields_bind fun _ =>
      yields_identifier.bind fun _ isSource => yields_pure ⟨isPath, isSource⟩
  case elementStore =>
    exact yields_element.bind fun _ areNames => yields_bind fun _ =>
      yields_identifier.bind fun _ isSource => yields_pure ⟨areNames.1, areNames.2, isSource⟩
  case assignment =>
    exact yields_identifier.bind fun _ isTarget => yields_bind fun _ =>
      yields_spelledOperand.bind fun _ isSpelled => yields_pure ⟨isTarget, isSpelled⟩

end Reading

end Reader

end TacAnalysis.Source
