/-
# How names are spelled

What is read as a name is spelled as a name: the name of a variable, a field, a method or a
label is a word, that of a class is a word that may contain slashes. A class that is named
in a type is not mistaken for a primitive type, since those are tried first: no keyword
stands at the front of its name unless the keyword goes on there.
-/

import Mathlib.Data.List.TakeWhile
import TacAnalysis.Proofs.Resolution.Reading

namespace TacAnalysis

namespace Source

/-- Characters of which the first one may start a word and the others may go on with it. -/
def IsWordOf (continues : Char → Bool) (text : List Char) : Prop :=
  ∃ c rest, text = c :: rest ∧ isWordStart c = true ∧ ∀ d ∈ rest, continues d = true

/-- The name of a variable, a field, a method or a label. -/
def IsIdentifier (name : String) : Prop := IsWordOf isWordChar name.toList

/-- The name of a class. -/
def IsClassName (name : String) : Prop := IsWordOf isClassNameChar name.toList

/-- No primitive type is named at the front of the name of a class, except by a keyword
that is the start of a longer word. -/
def HidesKeywords (name : String) : Prop :=
  ∀ entry ∈ Reader.primitiveTypes, ∀ rest, name.toList = entry.1.toList ++ rest →
    rest.head?.any isWordChar = true

end Source

open Source

/-- The class that a type is built on, if it is built on one, is named in such a way that it
is read as a class. -/
def Ty.IsSpelled (ty : Ty) : Prop :=
  ∀ name, ty.innermost = .named name → IsClassName name ∧ HidesKeywords name

theorem Ty.isSpelled_array {elem : Ty} : elem.array.IsSpelled ↔ elem.IsSpelled := Iff.rfl

namespace Source

/-- The type and the name of a variable are spelled as such. -/
structure TypedName.IsSpelled (var : TypedName) : Prop where
  ty : var.ty.IsSpelled
  name : IsIdentifier var.name

/-- The names in the declaration of a method are spelled as such. -/
structure MethodDecl.IsSpelled (decl : MethodDecl) : Prop where
  name : IsIdentifier decl.name
  params : ∀ param ∈ decl.params, param.IsSpelled
  ret : decl.ret.IsSpelled
  vars : ∀ var ∈ decl.body.elim [] Body.vars, var.IsSpelled

/-- The names in the declaration of a class and of its methods are spelled as such. -/
structure ClassDecl.IsSpelled (decl : ClassDecl) : Prop where
  name : IsClassName decl.name
  methods : ∀ method ∈ decl.methods, method.IsSpelled

namespace Reader

variable {α β : Type} {text rest : List Char}

theorem dropGiven?_append (given rest : List Char) :
    dropGiven? given (given ++ rest) = some rest := by
  induction given with
  | nil => rfl
  | cons c given ih => rw [List.cons_append, dropGiven?, if_pos rfl, ih]

/-- A word that is read stands after the blanks, and ends where it does not go on. -/
theorem exists_of_wordOf {continues : Char → Bool} {word : String}
    (isMatched : wordOf continues text = .matched word rest) :
    IsWordOf continues word.toList ∧ skipBlanks false text = word.toList ++ rest ∧
      rest.head?.any continues = false := by
  unfold wordOf at isMatched
  split at isMatched
  case h_1 => cases isMatched
  case h_2 c others isText =>
      split at isMatched
      case isTrue isStart =>
          cases isMatched
          rw [String.toList_ofList, isText, List.cons_append, List.takeWhile_append_dropWhile]
          refine ⟨⟨c, _, rfl, isStart, fun d isIn => List.mem_takeWhile_imp isIn⟩, rfl, ?_⟩
          have isEnd := List.head?_dropWhile_not continues others
          cases ends : (others.dropWhile continues).head? with
          | none => rfl
          | some d =>
              rw [ends] at isEnd
              exact isEnd
      case isFalse => cases isMatched

theorem yields_wordOf {continues : Char → Bool} :
    (wordOf continues).Yields fun word => IsWordOf continues word.toList :=
  fun _ _ _ isMatched => (exists_of_wordOf isMatched).1

theorem yields_identifier : identifier.Yields IsIdentifier := yields_wordOf

theorem yields_className : className.Yields IsClassName := yields_wordOf

/-- Where none of several readers finds anything, each of them finds nothing. -/
theorem unmatched_of_firstOf {readers : List (Reader α)}
    (areUnmatched : firstOf readers text = .unmatched) :
    ∀ reader ∈ readers, reader text = .unmatched := by
  induction readers with
  | nil => exact List.forall_mem_nil _
  | cons first readers ih =>
      change Reader.orElse first (fun _ => firstOf readers) text = _ at areUnmatched
      unfold Reader.orElse at areUnmatched
      split at areUnmatched
      case h_1 isUnmatched => exact List.forall_mem_cons.mpr ⟨isUnmatched, ih areUnmatched⟩
      case h_2 isOther => exact absurd areUnmatched isOther

theorem unmatched_of_map {reader : Reader β} {f : β → α}
    (isUnmatched : (f <$> reader) text = .unmatched) : reader text = .unmatched := by
  change Reader.bind reader (fun value => Reader.pure (f value)) text = _ at isUnmatched
  unfold Reader.bind at isUnmatched
  split at isUnmatched
  case h_1 => cases isUnmatched
  case h_2 isFirst => exact isFirst
  case h_3 => cases isUnmatched

/-- A class whose name is read where no primitive type is has a name that hides keywords. -/
theorem hidesKeywords_of_className {name : String}
    (notPrimitive : oneOfKeywords primitiveTypes text = .unmatched)
    (isName : className text = .matched name rest) : HidesKeywords name := by
  intro entry isEntry others isFront
  have notKeyword : keyword entry.1 text = .unmatched :=
    unmatched_of_map (unmatched_of_firstOf notPrimitive _ (List.mem_map_of_mem isEntry))
  obtain ⟨-, isText, isEnd⟩ := exists_of_wordOf isName
  unfold keyword at notKeyword
  rw [isText, isFront, List.append_assoc, dropGiven?_append] at notKeyword
  have goesOn : (others ++ rest).head?.any isWordChar = true := by simpa using notKeyword
  cases others with
  | nil =>
      -- A class name that ends with the keyword ends before any character of a word.
      cases rest with
      | nil => cases goesOn
      | cons c rest =>
          have isWord : isWordChar c = true := goesOn
          have isNameEnd : isClassNameChar c = false := isEnd
          rw [isClassNameChar, isWord] at isNameEnd
          cases isNameEnd
  | cons c others => exact goesOn

theorem exists_of_map {reader : Reader β} {f : β → α} {value : α}
    (isMatched : (f <$> reader) text = .matched value rest) :
    ∃ read, reader text = .matched read rest ∧ f read = value := by
  change Reader.bind reader (fun read => Reader.pure (f read)) text = _ at isMatched
  unfold Reader.bind at isMatched
  split at isMatched
  case h_1 read _ isRead =>
      cases isMatched
      exact ⟨read, isRead, rfl⟩
  case h_2 => cases isMatched
  case h_3 => cases isMatched

theorem yields_type : type.Yields Ty.IsSpelled := by
  have primitive : ∀ ty ∈ primitiveTypes.map Prod.snd, ty.innermost.className? = none := by decide
  have base : (oneOfKeywords primitiveTypes <|> (Ty.named <$> className)).Yields
      Ty.IsSpelled := by
    intro text ty rest isMatched name isNamed
    change Reader.orElse _ (fun _ => Ty.named <$> className) text = _ at isMatched
    unfold Reader.orElse at isMatched
    split at isMatched
    case h_1 notPrimitive =>
        obtain ⟨className, isName, rfl⟩ := exists_of_map isMatched
        cases isNamed
        exact ⟨yields_className _ _ _ isName, hidesKeywords_of_className notPrimitive isName⟩
    case h_2 =>
        have notNamed := primitive ty (yields_oneOfKeywords text ty rest isMatched)
        rw [isNamed] at notNamed
        cases notNamed
  refine base.bind fun base isSpelled => yields_bind fun dimensions => yields_pure ?_
  induction dimensions generalizing base with
  | nil => exact isSpelled
  | cons _ dimensions ih => exact ih base.array (Ty.isSpelled_array.mpr isSpelled)

/-- A reader of a list yields values as the reader of each of them does. -/
theorem Yields.separated {separator : Reader β} {reader : Reader α} {good : α → Prop}
    (yields : reader.Yields good) :
    (separated separator reader).Yields fun values => ∀ value ∈ values, good value := by
  refine yields.bind fun first isGood => ?_
  exact (yields_bind fun _ => yields).many.bind fun others areGood =>
    yields_pure (List.forall_mem_cons.mpr ⟨isGood, areGood⟩)

theorem Yields.parenthesized {reader : Reader α} {good : α → Prop}
    (yields : reader.Yields good) :
    (parenthesized reader).Yields fun values => ∀ value ∈ values, good value :=
  (yields.separated.orElse (yields_pure (List.forall_mem_nil _))).between

theorem yields_parameter : parameter.Yields TypedName.IsSpelled :=
  yields_type.bind fun _ isType => yields_identifier.bind fun _ isName =>
    yields_pure ⟨isType, isName⟩

theorem yields_variableDecls :
    variableDecls.Yields fun vars => ∀ var ∈ vars, var.IsSpelled := by
  refine yields_bind fun _ => yields_type.bind fun ty isType => ?_
  refine yields_identifier.separated.bind fun names areNames => yields_bind fun _ => ?_
  refine yields_pure fun var isVar => ?_
  obtain ⟨name, isName, rfl⟩ := List.mem_map.mp isVar
  exact ⟨isType, areNames name isName⟩

theorem yields_bodyVars : body.Yields fun body => ∀ var ∈ body.vars, var.IsSpelled := by
  have items : ((Sum.inl <$> variableDecls) <|> (Sum.inr <$> line)).Yields
      fun item => ∀ vars, item = Sum.inl vars → ∀ var ∈ vars, var.IsSpelled := by
    apply Yields.orElse
    · exact yields_variableDecls.map fun _ areSpelled _ areVars => Sum.inl.inj areVars ▸ areSpelled
    · exact (yields_true _).map fun _ _ _ areVars => nomatch areVars
  refine items.many.between.bind fun items areGood => yields_pure fun var isVar => ?_
  obtain ⟨vars, areVars, isIn⟩ := List.mem_flatten.mp isVar
  obtain ⟨item, isItem, isLeft⟩ := List.mem_filterMap.mp areVars
  exact areGood item isItem vars (Sum.getLeft?_eq_some_iff.mp isLeft) var isIn

theorem yields_methodDecl : method.Yields MethodDecl.IsSpelled := by
  have block : (((fun _ => none) <$> mark ";") <|> (some <$> body)).Yields
      fun block => ∀ var ∈ block.elim [] Body.vars, var.IsSpelled := by
    apply Yields.orElse
    · exact (yields_true _).map fun _ _ => List.forall_mem_nil _
    · exact yields_bodyVars.map fun _ areSpelled => areSpelled
  refine yields_bind fun _ => yields_bind fun _ => yields_identifier.bind fun name isName => ?_
  refine yields_parameter.parenthesized.bind fun params areParams => yields_bind fun _ => ?_
  refine yields_type.bind fun ret isRet => block.bind fun block areVars => ?_
  exact yields_pure ⟨isName, areParams, isRet, areVars⟩

theorem yields_spelledClass : classDecl.Yields ClassDecl.IsSpelled := by
  have members : ((Sum.inl <$> field) <|> (Sum.inr <$> method)).Yields
      fun item => ∀ decl : MethodDecl, item = Sum.inr decl → decl.IsSpelled := by
    apply Yields.orElse
    · exact (yields_true _).map fun _ _ _ isMethod => nomatch isMethod
    · exact yields_methodDecl.map fun _ isSpelled _ isMethod => Sum.inr.inj isMethod ▸ isSpelled
  refine yields_bind fun _ => yields_bind fun _ => yields_className.bind fun name isName => ?_
  refine yields_bind fun _ => yields_bind fun _ => members.many.between.bind fun items areGood => ?_
  refine yields_pure ⟨isName, fun decl isDecl => ?_⟩
  obtain ⟨item, isItem, isRight⟩ := List.mem_filterMap.mp isDecl
  exact areGood item isItem decl (Sum.getRight?_eq_some_iff.mp isRight)

theorem yields_spelledDeclarations :
    declarations.Yields fun decls => ∀ cls ∈ decls.classes, cls.IsSpelled := by
  have items : ((Sum.inl <$> classDecl) <|> (Sum.inr <$> entry)).Yields
      fun item => ∀ cls : ClassDecl, item = Sum.inl cls → cls.IsSpelled := by
    apply Yields.orElse
    · exact yields_spelledClass.map fun _ isSpelled _ isClass => Sum.inl.inj isClass ▸ isSpelled
    · exact (yields_true _).map fun _ _ _ isClass => nomatch isClass
  refine items.many.bind fun items areGood => yields_pure fun cls isClass => ?_
  obtain ⟨item, isItem, isLeft⟩ := List.mem_filterMap.mp isClass
  exact areGood item isItem cls (Sum.getLeft?_eq_some_iff.mp isLeft)

end Reader

/-- The classes of a text are spelled as such. -/
theorem isSpelled_of_parse {text : List Char} {decls : Declarations}
    (areDecls : parse text = .ok decls) : ∀ cls ∈ decls.classes, cls.IsSpelled := by
  unfold parse at areDecls
  split at areDecls
  case h_1 found rest isFound =>
      split at areDecls
      case h_1 =>
          cases areDecls
          exact Reader.yields_spelledDeclarations text decls rest isFound
      case h_2 => cases areDecls
  case h_2 => cases areDecls
  case h_3 => cases areDecls

end Source

end TacAnalysis
