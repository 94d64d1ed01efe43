/-
# Operands are read as they are written

What stands on the right-hand side of an assignment is read back as it is written, whatever
comes first in the grammar, since the alternatives before the right one fail at the sign that
follows the first name: neither a dot nor a bracket follows the name of a class. The exception
is a static field of a class with a slash in its name and with the null literal before that
slash.
-/

import TacAnalysis.Proofs.Source.Heads

namespace TacAnalysis.Source

section Written

/-- An access to a field, as it is written. -/
def FieldPath.render : FieldPath → String
  | .ofBase base field => base ++ "." ++ field
  | .ofClass owner field => owner ++ "::" ++ field

/-- A call, as it is written. -/
def CallExp.render (exp : CallExp) : String :=
  "invoke" ++ exp.kind.render ++ " " ++ exp.receiver.elim "" (· ++ ".") ++
    renderSignature exp.target.owner exp.target.sub ++ "(" ++ ", ".intercalate exp.args ++ ")"

/-- The right-hand side of an assignment, as it is written. -/
def Operand.render : Operand → String
  | .new ty => "new " ++ ty.render
  | .literal (.int value) => toString value.toInt
  | .literal .null => "null"
  | .copy name => name
  | .cast ty name => "(" ++ ty.render ++ ") " ++ name
  | .binary op left right => left ++ " " ++ op.symbol ++ " " ++ right
  | .field path => path.render
  | .element base index => base ++ "[" ++ index ++ "]"
  | .call exp => exp.render

/-- The name that an access to a field starts with. -/
def FieldPath.head : FieldPath → String
  | .ofBase base _ => base
  | .ofClass owner _ => owner

/-- An access to a field as it is written, from the sign after its first name on. -/
def FieldPath.tail : FieldPath → String
  | .ofBase _ field => "." ++ field
  | .ofClass _ field => "::" ++ field

/-- The names in an access to a field are spelled as such. -/
def FieldPath.IsSpelled : FieldPath → Prop
  | .ofBase base field => IsIdentifier base ∧ IsIdentifier field
  | .ofClass owner field => IsClassName owner ∧ IsIdentifier field

/-- The names in a call are spelled as such, and it has a receiver unless it is static. -/
structure CallExp.IsSpelled (exp : CallExp) : Prop where
  fits : exp.Fits
  receiver : ∀ name ∈ exp.receiver, IsIdentifier name
  owner : IsClassName exp.target.owner
  name : IsIdentifier exp.target.sub.name
  types : ∀ ty ∈ exp.target.sub.ret :: exp.target.sub.params, ty.IsSpelled
  args : ∀ name ∈ exp.args, IsIdentifier name

/-- The names in the right-hand side of an assignment are spelled as such. -/
def Operand.IsSpelled : Operand → Prop
  | .new ty => ty.IsSpelled
  | .literal _ => True
  | .copy name => IsIdentifier name
  | .cast ty name => ty.IsSpelled ∧ IsIdentifier name
  | .binary _ left right => IsIdentifier left ∧ IsIdentifier right
  | .field path => path.IsSpelled
  | .element base index => IsIdentifier base ∧ IsIdentifier index
  | .call exp => exp.IsSpelled

/-- The name that an operand starts with, where a keyword might stand instead. -/
def Operand.heads : Operand → List String
  | .copy name => [name]
  | .binary _ left _ => [left]
  | .field path => [path.head]
  | .element base _ => [base]
  | .new _ | .literal _ | .cast .. | .call _ => []

/-- A keyword that is an operand is taken for one at the front of the class of a field. -/
def Operand.IsCaptured : Operand → Prop
  | .field path => Opens "null" path.head
  | _ => False

variable {path : FieldPath} {rest : List Char}

theorem FieldPath.toList_render : path.render.toList = path.head.toList ++ path.tail.toList := by
  cases path <;> simp [render, head, tail]

theorem FieldPath.tail_ends : (path.tail.toList ++ rest).head?.any isClassNameChar = false := by
  cases path with
  | ofBase base field =>
      rw [tail, String.toList_append]
      rfl
  | ofClass owner field =>
      rw [tail, String.toList_append]
      rfl

theorem FieldPath.IsSpelled.isClassName (isSpelled : path.IsSpelled) : IsClassName path.head := by
  cases path with
  | ofBase base field => exact isSpelled.1.isClassName
  | ofClass owner field => exact isSpelled.1

theorem FieldPath.IsSpelled.isHead (isSpelled : path.IsSpelled)
    (notKeyword : path.head ∉ keywords) : IsHead path.head :=
  ⟨isSpelled.isClassName, notKeyword⟩

theorem IsIdentifier.oneLine {name : String} (isName : IsIdentifier name) : '\n' ∉ name.toList :=
  fun isIn => absurd (isName.isWordChar '\n' isIn) (by decide)

theorem FieldPath.IsSpelled.oneLine (isSpelled : path.IsSpelled) : '\n' ∉ path.tail.toList := by
  have isField : ∃ sign field, path.tail.toList = sign ++ field ∧ '\n' ∉ sign ∧ '\n' ∉ field := by
    cases path with
    | ofBase base field =>
        exact ⟨['.'], _, String.toList_append, by decide, isSpelled.2.oneLine⟩
    | ofClass owner field =>
        exact ⟨[':', ':'], _, String.toList_append, by decide, isSpelled.2.oneLine⟩
  obtain ⟨sign, field, isText, notSign, notField⟩ := isField
  rw [isText, List.mem_append]
  exact not_or.mpr ⟨notSign, notField⟩

/-- A call starts with the word that says of which kind it is. -/
theorem CallExp.toList_render (exp : CallExp) (rest : List Char) : exp.render.toList ++ rest =
    ("invoke" ++ exp.kind.render).toList ++ ' ' :: ((exp.receiver.elim "" (· ++ ".")).toList ++
      ((renderSignature exp.target.owner exp.target.sub).toList ++
        '(' :: ((", ".intercalate exp.args).toList ++ ')' :: rest))) := by
  simp [render]

end Written

namespace Reader

variable {text rest : List Char} {name : String}

section Numbers

/-- A number is met as it stands, and starts no word. -/
theorem visible_of_isNumeric {c : Char} (isNumeric : c = '-' ∨ c.isDigit = true) :
    isBlank c = false ∧ c ≠ '/' ∧ c ≠ '(' ∧ isWordStart c = false := by
  rcases isNumeric with rfl | isDigit
  · exact ⟨rfl, by decide, by decide, rfl⟩
  · refine ⟨Bool.eq_false_iff.mpr fun isBlank => ?_, ?_, ?_, ?_⟩
    · simp only [Source.isBlank, Bool.or_eq_true, decide_eq_true_eq] at isBlank
      rcases isBlank with ((rfl | rfl) | rfl) | rfl <;> cases isDigit
    · rintro rfl
      cases isDigit
    · rintro rfl
      cases isDigit
    · exact Bool.eq_false_iff.mpr fun starts => not_isDigit_of_isWordStart starts isDigit

theorem skipBlanks_of_visible {c : Char} (notBlank : isBlank c = false) (notSlash : c ≠ '/') :
    skipBlanks false (c :: text) = c :: text := by
  simp [skipBlanks, notBlank, notSlash]

theorem keyword_of_isNumeric {c : Char} {word : String} (isNumeric : c = '-' ∨ c.isDigit = true)
    (isWord : word.toList.head?.any isWordStart = true) :
    keyword word (c :: text) = .unmatched := by
  obtain ⟨notBlank, notSlash, -, notStart⟩ := visible_of_isNumeric isNumeric
  have differs : word.toList.head?.any (· != c) = true := by
    cases isGiven : word.toList with
    | nil =>
        rw [isGiven] at isWord
        cases isWord
    | cons d given =>
        refine bne_iff_ne.mpr ?_
        rintro rfl
        rw [isGiven] at isWord
        exact absurd (isWord.symm.trans notStart) Bool.noConfusion
  rw [keyword, skipBlanks_of_visible notBlank notSlash, dropGiven?_of_head differs]

theorem takeWhile_toDigits (n : Nat) :
    (Nat.toDigits 10 n ++ [';']).takeWhile Char.isDigit = Nat.toDigits 10 n ∧
      (Nat.toDigits 10 n ++ [';']).dropWhile Char.isDigit = [';'] := by
  have areDigits : ∀ c ∈ Nat.toDigits 10 n, c.isDigit = true :=
    fun c isIn => Nat.isDigit_of_mem_toDigits (by decide) (by decide) isIn
  rw [List.takeWhile_append_of_pos areDigits, List.dropWhile_append_of_pos areDigits]
  exact ⟨List.append_nil _, rfl⟩

theorem numberOf?_toDigits (negative : Bool) (n : Nat) :
    numberOf? negative (Nat.toDigits 10 n) = int32? (if negative then -(n : Int) else n) := by
  have isNumber : Text.decimalValue (Nat.toDigits 10 n) = n :=
    Nat.ofDigitChars_toDigits (by decide) (by decide)
  have notEmpty : (Nat.toDigits 10 n).isEmpty = false := by simp [Nat.toDigits_ne_nil]
  cases negative <;> simp [numberOf?, notEmpty, isNumber]

theorem int32?_toInt (value : Int32) : int32? value.toInt = some value := by
  have inRange : Int32.minValue.toInt ≤ value.toInt ∧ value.toInt ≤ Int32.maxValue.toInt :=
    ⟨value.minValue_le_toInt, value.toInt_le⟩
  rw [int32?, if_pos (by simpa using inRange), Int32.ofInt_toInt]

/-- A number is written by its digits, after a minus sign if it is negative. -/
theorem exists_digits (value : Int) : ∃ (negative : Bool) (n : Nat),
    (toString value).toList = (if negative then ['-'] else []) ++ Nat.toDigits 10 n ∧
      value = if negative then -(n : Int) else n := by
  cases value with
  | ofNat n => exact ⟨false, n, String.toList_ofList, rfl⟩
  | negSucc n =>
      refine ⟨true, n + 1, ?_, rfl⟩
      change ("-" ++ String.ofList (Nat.toDigits 10 (n + 1))).toList = _
      simp

theorem exists_head_toDigits (n : Nat) :
    ∃ c others, Nat.toDigits 10 n = c :: others ∧ c.isDigit = true := by
  cases isDigits : Nat.toDigits 10 n with
  | nil => exact absurd isDigits Nat.toDigits_ne_nil
  | cons c others =>
      refine ⟨c, others, rfl, ?_⟩
      exact Nat.isDigit_of_mem_toDigits (by decide) (by decide) (isDigits ▸ List.mem_cons_self)

theorem exists_head_toString (value : Int) : ∃ c others,
    (toString value).toList = c :: others ∧ (c = '-' ∨ c.isDigit = true) := by
  obtain ⟨negative, n, isText, -⟩ := exists_digits value
  obtain ⟨c, others, isDigits, isDigit⟩ := exists_head_toDigits n
  cases negative with
  | true => exact ⟨'-', _, isText, .inl rfl⟩
  | false => exact ⟨c, others, isText.trans isDigits, .inr isDigit⟩

/-- A number is read as it is written. -/
theorem number_toString (value : Int32) :
    number ((toString value.toInt).toList ++ [';']) = .matched value [';'] := by
  obtain ⟨negative, n, isText, isValue⟩ := exists_digits value.toInt
  obtain ⟨isTaken, isLeft⟩ := takeWhile_toDigits n
  have isRead : numberOf? negative (Nat.toDigits 10 n) = some value := by
    rw [numberOf?_toDigits, ← isValue, int32?_toInt]
  obtain ⟨c, others, isDigits, isDigit⟩ := exists_head_toDigits n
  cases negative with
  | true =>
      rw [isText]
      simp [number, skipBlanks, isBlank, isTaken, isLeft, isRead]
  | false =>
      have isText : (toString value.toInt).toList = Nat.toDigits 10 n := isText
      obtain ⟨notBlank, notSlash, -⟩ := visible_of_isNumeric (.inr isDigit)
      have isMet : skipBlanks false (Nat.toDigits 10 n ++ [';']) = Nat.toDigits 10 n ++ [';'] := by
        rw [isDigits]
        exact skipBlanks_of_visible notBlank notSlash
      have notMinus : (Nat.toDigits 10 n ++ [';']).head? ≠ some '-' := by
        rw [isDigits]
        rintro ⟨⟩
        cases isDigit
      rw [isText]
      simp only [number, isMet, notMinus, decide_false, if_false, isTaken, isLeft,
        isRead]

end Numbers

section Calls

/-- The arguments of a call are read as they are written. -/
theorem arguments_append {names : List String} (areNames : ∀ name ∈ names, IsIdentifier name) :
    parenthesized identifier ('(' :: ((", ".intercalate names).toList ++ ')' :: rest)) =
      .matched names rest := by
  have areRead : parenthesized identifier ('(' :: ((", ".intercalate (names.map id)).toList ++
      ')' :: rest)) = .matched names rest :=
    parenthesized_append (fun text => text.head?.any isWordChar = false) ", " id (by decide)
      (fun _ => rfl) (fun name isIn _ ends => wordOf_append (areNames name isIn) ends)
      (fun _ => rfl) rfl rfl
  rwa [List.map_id] at areRead

/-- A call is read as it is written. -/
theorem call_append {exp : CallExp} (isSpelled : exp.IsSpelled) :
    call (exp.render.toList ++ rest) = .matched exp rest := by
  obtain ⟨kind, receiver, target, args⟩ := exp
  have isTarget {text : List Char} : methodName
      ((renderSignature target.owner target.sub).toList ++ text) = .matched target text :=
    methodName_append isSpelled.owner isSpelled.name isSpelled.types
  cases receiver with
  | none =>
      obtain rfl : kind = .static := isSpelled.fits.mpr rfl
      rw [CallExp.toList_render]
      apply orElse_eq_of_matched
      refine (bind_eq_of_matched (keyword_append rfl rfl)).trans ?_
      refine (bind_eq_of_matched (methodName_space.trans isTarget)).trans ?_
      exact bind_eq_of_matched (arguments_append isSpelled.args)
  | some receiver =>
      have isDynamic : kind ≠ .static := fun isStatic => nomatch isSpelled.fits.mp isStatic
      have isEntry : ("invoke" ++ kind.render, kind) ∈ instanceCallKinds := by
        cases kind <;> first | exact absurd rfl isDynamic | decide
      have isReceiver {text : List Char} :
          ((some receiver).elim "" (· ++ ".")).toList ++ text = receiver.toList ++ '.' :: text := by
        simp
      have notStatic {text : List Char} :
          keyword "invokestatic" (("invoke" ++ kind.render).toList ++ text) = .unmatched := by
        cases kind <;> first | exact absurd rfl isDynamic | rfl
      rw [CallExp.toList_render, isReceiver]
      refine (orElse_eq_of_unmatched (bind_eq_of_unmatched notStatic)).trans ?_
      refine (bind_eq_of_matched
        (oneOfKeywords_append (by decide) (by decide) isEntry rfl)).trans ?_
      refine (bind_eq_of_matched (identifier_space.trans
        (wordOf_append (isSpelled.receiver receiver rfl) rfl))).trans ?_
      refine (bind_eq_of_matched (show mark "." ('.' :: _) = .matched () _ from rfl)).trans ?_
      refine (bind_eq_of_matched isTarget).trans ?_
      exact bind_eq_of_matched (arguments_append isSpelled.args)

end Calls

section Accesses

/-- No field is read at a name that neither two colons nor a dot follow. -/
theorem fieldPath_name (isName : IsIdentifier name)
    (ends : rest.head?.any isClassNameChar = false) (notStatic : mark "::" rest = .unmatched)
    (notInstance : mark "." rest = .unmatched) : fieldPath (name.toList ++ rest) = .unmatched := by
  refine (orElse_eq_of_unmatched ?_).trans ?_
  · refine (bind_eq_of_matched (wordOf_append isName.isClassName ends)).trans ?_
    exact bind_eq_of_unmatched notStatic
  · refine (bind_eq_of_matched (wordOf_append isName (head?_isWordChar ends))).trans ?_
    exact bind_eq_of_unmatched notInstance

/-- An access to a field is read as it is written. -/
theorem fieldPath_append {path : FieldPath} (isSpelled : path.IsSpelled)
    (ends : rest.head?.any isWordChar = false) :
    fieldPath (path.render.toList ++ rest) = .matched path rest := by
  cases path with
  | ofBase base field =>
      obtain ⟨isBase, isField⟩ := isSpelled
      have isWritten : (FieldPath.render (.ofBase base field)).toList ++ rest =
          base.toList ++ '.' :: (field.toList ++ rest) := by
        simp [FieldPath.render]
      rw [isWritten]
      refine (orElse_eq_of_unmatched ?_).trans ?_
      · refine (bind_eq_of_matched (wordOf_append isBase.isClassName rfl)).trans ?_
        exact bind_eq_of_unmatched rfl
      · refine (bind_eq_of_matched (wordOf_append isBase rfl)).trans ?_
        refine (bind_eq_of_matched (show mark "." ('.' :: _) = .matched () _ from rfl)).trans ?_
        exact bind_eq_of_matched (wordOf_append isField ends)
  | ofClass owner field =>
      obtain ⟨isOwner, isField⟩ := isSpelled
      have isWritten : (FieldPath.render (.ofClass owner field)).toList ++ rest =
          owner.toList ++ ':' :: ':' :: (field.toList ++ rest) := by
        simp [FieldPath.render]
      rw [isWritten]
      apply orElse_eq_of_matched
      refine (bind_eq_of_matched (wordOf_append isOwner rfl)).trans ?_
      refine (bind_eq_of_matched
        (show mark "::" (':' :: ':' :: _) = .matched () _ from rfl)).trans ?_
      exact bind_eq_of_matched (wordOf_append isField ends)

/-- No element is read at a name that no bracket follows. -/
theorem element_name (isName : IsIdentifier name) (ends : rest.head?.any isWordChar = false)
    (notElement : mark "[" rest = .unmatched) : element (name.toList ++ rest) = .unmatched := by
  refine (bind_eq_of_matched (wordOf_append isName ends)).trans ?_
  exact bind_eq_of_unmatched (bind_eq_of_unmatched (bind_eq_of_unmatched notElement))

/-- An access to an element is read as it is written. -/
theorem element_append {base index : String} (isBase : IsIdentifier base)
    (isIndex : IsIdentifier index) :
    element (base.toList ++ '[' :: (index.toList ++ ']' :: rest)) =
      .matched (base, index) rest := by
  refine (bind_eq_of_matched (wordOf_append isBase rfl)).trans ?_
  exact bind_eq_of_matched (between_append rfl (wordOf_append isIndex rfl) rfl)

end Accesses

section Operands

/-- At the name of a variable, an operand is a field, an element, a binary expression or a
copy. -/
theorem operand_plain (isPlain : IsPlain name) (ends : rest.head?.any isClassNameChar = false) :
    operand (name.toList ++ rest) =
      firstOf [Operand.field <$> fieldPath,
        (fun access => Operand.element access.1 access.2) <$> element, binaryOperand,
        Operand.copy <$> identifier] (name.toList ++ rest) :=
  (operand_head isPlain.isHead ends fun isIn => absurd isIn
    isPlain.isIdentifier.slash_not_mem).trans (orElse_eq_of_unmatched (bind_eq_of_unmatched
      (keyword_head isPlain.isHead (by decide) (isPlain.not_opens _) ends)))

theorem operand_new {ty : Ty} (isSpelled : ty.IsSpelled) :
    operand ((Operand.new ty).render.toList ++ [';']) = .matched (.new ty) [';'] := by
  have isWritten : (Operand.new ty).render.toList ++ [';'] =
      "new".toList ++ ' ' :: (ty.render.toList ++ [';']) := by
    simp [Operand.render]
  have isType : (keyword "new" *> type) ("new".toList ++ ' ' :: (ty.render.toList ++ [';'])) =
      .matched ty [';'] :=
    (bind_eq_of_matched (keyword_append rfl rfl)).trans
      (type_space.trans (type_append isSpelled ⟨rfl, rfl⟩))
  rw [isWritten]
  exact orElse_eq_of_matched (bind_eq_of_matched isType)

theorem operand_int (value : Int32) :
    operand ((Operand.literal (.int value)).render.toList ++ [';']) =
      .matched (.literal (.int value)) [';'] := by
  obtain ⟨c, others, isText, isNumeric⟩ := exists_head_toString value.toInt
  obtain ⟨notBlank, notSlash, notParenthesis, -⟩ := visible_of_isNumeric isNumeric
  have notKeyword {word : String} (isWord : word.toList.head?.any isWordStart = true) :
      keyword word ((toString value.toInt).toList ++ [';']) = .unmatched :=
    isText ▸ keyword_of_isNumeric isNumeric isWord
  have notDynamic :
      oneOfKeywords instanceCallKinds ((toString value.toInt).toList ++ [';']) = .unmatched := by
    apply firstOf_eq_unmatched
    intro reader isReader
    obtain ⟨entry, isEntry, rfl⟩ := List.mem_map.mp isReader
    have areWords : ∀ entry ∈ instanceCallKinds, entry.1.toList.head?.any isWordStart = true := by
      decide
    exact bind_eq_of_unmatched (notKeyword (areWords entry isEntry))
  have notCall : call ((toString value.toInt).toList ++ [';']) = .unmatched :=
    (orElse_eq_of_unmatched (bind_eq_of_unmatched (notKeyword rfl))).trans
      (bind_eq_of_unmatched notDynamic)
  have notCast : mark "(" ((toString value.toInt).toList ++ [';']) = .unmatched := by
    have differs : "(".toList.head?.any (· != c) = true := bne_iff_ne.mpr (Ne.symm notParenthesis)
    rw [isText, List.cons_append, mark, skipBlanks_of_visible notBlank notSlash,
      dropGiven?_of_head differs]
  change operand ((toString value.toInt).toList ++ [';']) = _
  refine (orElse_eq_of_unmatched (bind_eq_of_unmatched
    (bind_eq_of_unmatched (notKeyword rfl)))).trans ?_
  refine (orElse_eq_of_unmatched (bind_eq_of_unmatched notCall)).trans ?_
  refine (orElse_eq_of_unmatched (bind_eq_of_unmatched (bind_eq_of_unmatched
    (bind_eq_of_unmatched notCast)))).trans ?_
  exact orElse_eq_of_matched (bind_eq_of_matched (number_toString value))

theorem operand_null :
    operand ((Operand.literal .null).render.toList ++ [';']) = .matched (.literal .null) [';'] :=
  rfl

theorem operand_copy (isPlain : IsPlain name) :
    operand ((Operand.copy name).render.toList ++ [';']) = .matched (.copy name) [';'] := by
  have isName := isPlain.isIdentifier
  refine (operand_plain isPlain rfl).trans ?_
  refine (orElse_eq_of_unmatched (bind_eq_of_unmatched
    (fieldPath_name isName rfl rfl rfl))).trans ?_
  refine (orElse_eq_of_unmatched (bind_eq_of_unmatched (element_name isName rfl rfl))).trans ?_
  refine (orElse_eq_of_unmatched ?_).trans ?_
  · exact (bind_eq_of_matched (wordOf_append isName rfl)).trans (bind_eq_of_unmatched rfl)
  · exact orElse_eq_of_matched (bind_eq_of_matched (wordOf_append isName rfl))

theorem operand_cast {ty : Ty} (isSpelled : ty.IsSpelled) (isName : IsIdentifier name) :
    operand ((Operand.cast ty name).render.toList ++ [';']) = .matched (.cast ty name) [';'] := by
  have isWritten : (Operand.cast ty name).render.toList ++ [';'] =
      '(' :: (ty.render.toList ++ ')' :: ' ' :: (name.toList ++ [';'])) := by
    simp [Operand.render]
  rw [isWritten]
  refine (orElse_eq_of_unmatched rfl).trans ((orElse_eq_of_unmatched rfl).trans ?_)
  apply orElse_eq_of_matched
  refine (bind_eq_of_matched (between_append rfl (type_append isSpelled ⟨rfl, rfl⟩) rfl)).trans ?_
  exact bind_eq_of_matched (identifier_space.trans (wordOf_append isName rfl))

theorem operand_binary {op : BinOp} {left right : String} (isLeft : IsPlain left)
    (isRight : IsIdentifier right) :
    operand ((Operand.binary op left right).render.toList ++ [';']) =
      .matched (.binary op left right) [';'] := by
  have isWritten : (Operand.binary op left right).render.toList ++ [';'] =
      left.toList ++ ' ' :: (op.symbol.toList ++ ' ' :: (right.toList ++ [';'])) := by
    simp [Operand.render]
  have isName := isLeft.isIdentifier
  have isOperator {text : List Char} :
      operator (' ' :: (op.symbol.toList ++ ' ' :: text)) = .matched op (' ' :: text) := by
    cases op <;> rfl
  have notMark {text : List Char} {sign : String} (isSign : sign ∈ ["::", ".", "["]) :
      mark sign (' ' :: (op.symbol.toList ++ ' ' :: text)) = .unmatched := by
    simp only [List.mem_cons, List.not_mem_nil, or_false] at isSign
    rcases isSign with rfl | rfl | rfl <;> cases op <;> rfl
  rw [isWritten]
  refine (operand_plain isLeft rfl).trans ?_
  refine (orElse_eq_of_unmatched (bind_eq_of_unmatched
    (fieldPath_name isName rfl (notMark (by decide)) (notMark (by decide))))).trans ?_
  refine (orElse_eq_of_unmatched (bind_eq_of_unmatched
    (element_name isName rfl (notMark (by decide))))).trans ?_
  apply orElse_eq_of_matched
  refine (bind_eq_of_matched (wordOf_append isName rfl)).trans ?_
  refine (bind_eq_of_matched isOperator).trans ?_
  exact bind_eq_of_matched (identifier_space.trans (wordOf_append isRight rfl))

theorem operand_field {path : FieldPath} (isSpelled : path.IsSpelled)
    (notKeyword : path.head ∉ keywords) (notCaptured : ¬ Opens "null" path.head) :
    operand ((Operand.field path).render.toList ++ [';']) = .matched (.field path) [';'] := by
  have isRead : fieldPath (path.render.toList ++ [';']) = .matched path [';'] :=
    fieldPath_append isSpelled rfl
  have isHead := isSpelled.isHead notKeyword
  have oneLine : '\n' ∉ path.tail.toList ++ [';'] := by simp [isSpelled.oneLine]
  change operand (path.render.toList ++ [';']) = _
  rw [FieldPath.toList_render, List.append_assoc] at isRead ⊢
  refine (operand_head isHead FieldPath.tail_ends fun _ => oneLine).trans ?_
  refine (orElse_eq_of_unmatched (bind_eq_of_unmatched
    (keyword_head isHead (by decide) notCaptured FieldPath.tail_ends))).trans ?_
  exact orElse_eq_of_matched (bind_eq_of_matched isRead)

theorem operand_element {base index : String} (isBase : IsPlain base)
    (isIndex : IsIdentifier index) :
    operand ((Operand.element base index).render.toList ++ [';']) =
      .matched (.element base index) [';'] := by
  have isWritten : (Operand.element base index).render.toList ++ [';'] =
      base.toList ++ '[' :: (index.toList ++ ']' :: [';']) := by
    simp [Operand.render]
  rw [isWritten]
  refine (operand_plain isBase rfl).trans ?_
  refine (orElse_eq_of_unmatched (bind_eq_of_unmatched
    (fieldPath_name isBase.isIdentifier rfl rfl rfl))).trans ?_
  exact orElse_eq_of_matched (bind_eq_of_matched (element_append isBase.isIdentifier isIndex))

theorem operand_call {exp : CallExp} (isSpelled : exp.IsSpelled) :
    operand ((Operand.call exp).render.toList ++ [';']) = .matched (.call exp) [';'] := by
  have notNew : keyword "new" (exp.render.toList ++ [';']) = .unmatched := by
    rw [exp.toList_render, String.toList_append]
    rfl
  refine (orElse_eq_of_unmatched (bind_eq_of_unmatched (bind_eq_of_unmatched notNew))).trans ?_
  exact orElse_eq_of_matched (bind_eq_of_matched (call_append isSpelled))

/-- An operand is read as it is written, unless its keyword captures the class of a field. -/
theorem operand_append {value : Operand} (isSpelled : value.IsSpelled)
    (notKeywords : ∀ name ∈ value.heads, name ∉ keywords) (notCaptured : ¬ value.IsCaptured) :
    operand (value.render.toList ++ [';']) = .matched value [';'] := by
  cases value with
  | new ty => exact operand_new isSpelled
  | literal value =>
      cases value with
      | int value => exact operand_int value
      | null => exact operand_null
  | copy name => exact operand_copy ⟨isSpelled, notKeywords name (List.mem_singleton_self _)⟩
  | cast ty name => exact operand_cast isSpelled.1 isSpelled.2
  | binary op left right =>
      have isLeft : IsPlain left := ⟨isSpelled.1, notKeywords left (List.mem_singleton_self _)⟩
      exact operand_binary isLeft isSpelled.2
  | field path =>
      exact operand_field isSpelled (notKeywords path.head (List.mem_singleton_self _)) notCaptured
  | element base index =>
      have isBase : IsPlain base := ⟨isSpelled.1, notKeywords base (List.mem_singleton_self _)⟩
      exact operand_element isBase isSpelled.2
  | call exp => exact operand_call isSpelled

theorem operand_space : operand (' ' :: text) = operand text := rfl

end Operands

end Reader

end TacAnalysis.Source
