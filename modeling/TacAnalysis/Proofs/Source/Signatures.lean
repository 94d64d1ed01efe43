/-
# Signatures are read as they are written

A type is written as the name that it is built on and one pair of brackets for each
dimension, and read the other way round: primitive types are tried first, which is why the
names that classes have in types do not start like one of them. Types that follow each other
are kept apart by commas. The sign that closes a signature ends it, so that a signature is
read off the front of any text.
-/

import TacAnalysis.Proofs.Source.Spelling

namespace TacAnalysis

/-- The dimensions of a type, one for each array that it is. -/
def Ty.dimensions : Ty → List Unit
  | array elem => elem.dimensions ++ [()]
  | _ => []

theorem Ty.toList_render {ty : Ty} : ty.render.toList =
    ty.innermost.render.toList ++ ty.dimensions.flatMap fun _ => ['[', ']'] := by
  induction ty with
  | array elem ih => simp [render, innermost, dimensions, ih]
  | _ => simp [innermost, dimensions]

theorem Ty.foldl_dimensions {ty : Ty} :
    ty.dimensions.foldl (fun ty _ => ty.array) ty.innermost = ty := by
  induction ty with
  | array elem ih => rw [dimensions, innermost, List.foldl_append, ih]; rfl
  | _ => rfl

theorem Ty.innermost_ne_array {ty elem : Ty} : ty.innermost ≠ elem.array := by
  induction ty with
  | array _ ih => exact ih
  | _ => nofun

theorem Ty.innermost_innermost {ty : Ty} : ty.innermost.innermost = ty.innermost := by
  induction ty with
  | array _ ih => exact ih
  | _ => rfl

namespace Source

variable {text rest : List Char}

/-- Nothing that starts a word is passed over as a blank. -/
theorem visible_of_isWordStart {c : Char} (isStart : isWordStart c = true) :
    isBlank c = false ∧ c ≠ '/' := by
  constructor
  · cases blank : isBlank c with
    | false => rfl
    | true =>
        simp only [isBlank, Bool.or_eq_true, decide_eq_true_eq] at blank
        rcases blank with ((rfl | rfl) | rfl) | rfl <;> cases isStart
  · rintro rfl
    cases isStart

/-- A word is met as it stands. -/
theorem skipBlanks_of_startsWord {word : List Char} (starts : word.head?.any isWordStart = true) :
    skipBlanks false (word ++ rest) = word ++ rest := by
  cases word with
  | nil => cases starts
  | cons c others =>
      obtain ⟨notBlank, notSlash⟩ := visible_of_isWordStart starts
      simp [skipBlanks, notBlank, notSlash]

theorem IsWordOf.starts {continues : Char → Bool} {word : List Char}
    (isWord : IsWordOf continues word) : word.head?.any isWordStart = true := by
  obtain ⟨c, others, rfl, starts, -⟩ := isWord
  exact starts

theorem dropGiven?_eq_some_iff {given : List Char} :
    dropGiven? given text = some rest ↔ text = given ++ rest := by
  induction given generalizing text with
  | nil => simp [dropGiven?, eq_comm]
  | cons c given ih =>
      cases text with
      | nil => simp [dropGiven?]
      | cons d text =>
          rw [dropGiven?]
          split
          case isTrue same => simp [ih, same]
          case isFalse differs => simp [Ne.symm differs]

namespace Reader

variable {α β : Type} {reader : Reader α}

/-- Once the first value is read, the rest of the text is read as it says. -/
theorem bind_eq_of_matched {first : Reader β} {next : β → Reader α} {value : β}
    (isMatched : first text = .matched value rest) : (first >>= next) text = next value rest := by
  change Reader.bind first next text = _
  rw [Reader.bind, isMatched]

theorem bind_eq_of_unmatched {first : Reader β} {next : β → Reader α}
    (isUnmatched : first text = .unmatched) : (first >>= next) text = .unmatched := by
  change Reader.bind first next text = _
  rw [Reader.bind, isUnmatched]

theorem orElse_eq_of_unmatched {second : Reader α} (isUnmatched : reader text = .unmatched) :
    (reader <|> second) text = second text := by
  change Reader.orElse reader (fun _ => second) text = _
  rw [Reader.orElse, isUnmatched]

theorem orElse_eq_of_matched {second : Reader α} {value : α}
    (isMatched : reader text = .matched value rest) :
    (reader <|> second) text = .matched value rest := by
  change Reader.orElse reader (fun _ => second) text = _
  rw [Reader.orElse, isMatched]

theorem firstOf_eq_unmatched {readers : List (Reader α)}
    (areUnmatched : ∀ reader ∈ readers, reader text = .unmatched) :
    firstOf readers text = .unmatched := by
  induction readers with
  | nil => rfl
  | cons first readers ih =>
      obtain ⟨isFirst, areOthers⟩ := List.forall_mem_cons.mp areUnmatched
      exact (orElse_eq_of_unmatched isFirst).trans (ih areOthers)

section Words

/-- A word is read to its end. -/
theorem wordOf_append {continues : Char → Bool} {word : String}
    (isWord : IsWordOf continues word.toList) (ends : rest.head?.any continues = false) :
    wordOf continues (word.toList ++ rest) = .matched word rest := by
  rw [wordOf, skipBlanks_of_startsWord isWord.starts]
  obtain ⟨c, others, isText, starts, areOthers⟩ := isWord
  have stops : rest.takeWhile continues = [] ∧ rest.dropWhile continues = rest := by
    cases rest with
    | nil => exact ⟨rfl, rfl⟩
    | cons d rest =>
        have isEnd : continues d = false := ends
        simp [isEnd]
  simp only [isText, List.cons_append, starts, if_true, List.takeWhile_append_of_pos areOthers,
    List.dropWhile_append_of_pos areOthers, stops.1, stops.2, List.append_nil]
  rw [← isText, String.ofList_toList]

/-- A keyword is read where no longer word starts with it. -/
theorem keyword_append {word : String} (starts : word.toList.head?.any isWordStart = true)
    (ends : rest.head?.any isWordChar = false) :
    keyword word (word.toList ++ rest) = .matched () rest := by
  rw [keyword, skipBlanks_of_startsWord starts, dropGiven?_append]
  simp [ends]

/-- A keyword is not read where a longer word starts with it, nor where the text ends or
goes on otherwise before the keyword does. -/
theorem keyword_unmatched {word : String} {front : List Char}
    (starts : front.head?.any isWordStart = true)
    (goesOn : ∀ others, front = word.toList ++ others → others.head?.any isWordChar = true)
    (ends : ∀ c others, word.toList = front ++ c :: others → rest.head? ≠ some c) :
    keyword word (front ++ rest) = .unmatched := by
  rw [keyword, skipBlanks_of_startsWord starts]
  cases isFound : dropGiven? word.toList (front ++ rest) with
  | none => rfl
  | some unread =>
      rcases List.append_eq_append_iff.mp (dropGiven?_eq_some_iff.mp isFound) with
        ⟨others, isWord, rfl⟩ | ⟨others, isFront, rfl⟩
      · cases others with
        | nil => cases goesOn [] (by rw [isWord, List.append_nil, List.append_nil])
        | cons c others => exact absurd rfl (ends c others isWord)
      · have isLonger := goesOn others isFront
        cases others with
        | nil => cases isLonger
        | cons c others => exact if_pos isLonger

/-- Of keywords none of which starts another one, the one that is written is read. -/
theorem oneOfKeywords_append {table : List (String × α)} {entry : String × α}
    (start : ∀ entry ∈ table, entry.1.toList.head?.any isWordStart = true)
    (apart : ∀ first ∈ table, ∀ second ∈ table, first.1.toList <+: second.1.toList →
      first = second)
    (isEntry : entry ∈ table) (ends : rest.head?.any isWordChar = false) :
    oneOfKeywords table (entry.1.toList ++ rest) = .matched entry.2 rest := by
  induction table with
  | nil => cases isEntry
  | cons first table ih =>
      by_cases isFirst : entry = first
      · subst isFirst
        exact orElse_eq_of_matched (bind_eq_of_matched (keyword_append (start _ isEntry) ends))
      · have notFirst : keyword first.1 (entry.1.toList ++ rest) = .unmatched := by
          apply keyword_unmatched (start entry isEntry)
          · intro others isLonger
            exact absurd (apart first List.mem_cons_self entry isEntry ⟨others, isLonger.symm⟩).symm
              isFirst
          · intro c others isLonger
            exact absurd (apart entry isEntry first List.mem_cons_self ⟨_, isLonger.symm⟩) isFirst
        refine (orElse_eq_of_unmatched (bind_eq_of_unmatched notFirst)).trans ?_
        refine ih (fun other isIn => start other (List.mem_cons_of_mem _ isIn)) ?_
          (List.mem_of_ne_of_mem isFirst isEntry)
        exact fun one isOne two isTwo =>
          apart one (List.mem_cons_of_mem _ isOne) two (List.mem_cons_of_mem _ isTwo)

theorem head?_isWordChar (ends : rest.head?.any isClassNameChar = false) :
    rest.head?.any isWordChar = false := by
  cases rest with
  | nil => rfl
  | cons c rest =>
      have isEnd : (isWordChar c || decide (c = '/')) = false := ends
      exact (Bool.or_eq_false_iff.mp isEnd).1

/-- A class in a type is not taken for a primitive type. -/
theorem primitiveTypes_unmatched {name : String} (isName : IsClassName name)
    (hides : HidesKeywords name) (ends : rest.head?.any isClassNameChar = false) :
    oneOfKeywords primitiveTypes (name.toList ++ rest) = .unmatched := by
  have areWords : ∀ entry ∈ primitiveTypes, entry.1.toList.all isClassNameChar = true := by decide
  apply firstOf_eq_unmatched
  intro reader isReader
  obtain ⟨entry, isEntry, rfl⟩ := List.mem_map.mp isReader
  apply bind_eq_of_unmatched
  refine keyword_unmatched isName.starts (hides entry isEntry) fun c others isLonger isNext => ?_
  have isWord : isClassNameChar c = true := by
    apply List.all_eq_true.mp (areWords entry isEntry)
    rw [isLonger]
    exact List.mem_append_right _ List.mem_cons_self
  rw [isNext] at ends
  exact absurd (isWord.symm.trans ends) Bool.noConfusion

end Words

section Repetition

variable {Item : Type} {items : List Item} {written : Item → List Char} {value : Item → α}
  (ends : List Char → Prop)

/-- Values that are written one after another are read up to where no other one is, when
each may stand before the others. -/
theorem manyUpTo_append {limit : Nat}
    (reads : ∀ item ∈ items, ∀ rest, ends rest →
      reader (written item ++ rest) = .matched (value item) rest)
    (mayFollow : ∀ item rest, ends (written item ++ rest)) (mayEnd : ends rest)
    (stops : reader rest = .unmatched) (fits : items.length ≤ limit) :
    manyUpTo reader limit (items.flatMap written ++ rest) = .matched (items.map value) rest := by
  induction items generalizing limit with
  | nil =>
      cases limit with
      | zero => rfl
      | succ limit =>
          rw [List.flatMap_nil, List.nil_append, manyUpTo]
          simp only [stops, List.map_nil]
  | cons item items ih =>
      obtain ⟨limit, rfl⟩ := Nat.exists_eq_add_of_le' (Nat.zero_lt_of_lt fits)
      obtain ⟨readsItem, readsOthers⟩ := List.forall_mem_cons.mp reads
      have others := ih readsOthers (Nat.le_of_succ_le_succ fits)
      have isNext : ends (items.flatMap written ++ rest) := by
        cases items with
        | nil => exact mayEnd
        | cons next items =>
            rw [List.flatMap_cons, List.append_assoc]
            exact mayFollow next _
      rw [List.flatMap_cons, List.append_assoc, manyUpTo]
      simp only [readsItem _ isNext, others, List.map_cons]

theorem length_le_length_flatMap (areWritten : ∀ item, written item ≠ []) :
    items.length ≤ (items.flatMap written).length := by
  induction items with
  | nil => exact Nat.le_refl _
  | cons item items ih =>
      have isWritten := List.length_pos_iff.mpr (areWritten item)
      rw [List.flatMap_cons, List.length_append, List.length_cons]
      omega

theorem many_append (reads : ∀ item ∈ items, ∀ rest, ends rest →
      reader (written item ++ rest) = .matched (value item) rest)
    (mayFollow : ∀ item rest, ends (written item ++ rest)) (mayEnd : ends rest)
    (stops : reader rest = .unmatched) (areWritten : ∀ item, written item ≠ []) :
    many reader (items.flatMap written ++ rest) = .matched (items.map value) rest := by
  apply manyUpTo_append ends reads mayFollow mayEnd stops
  rw [List.length_append]
  exact Nat.le_add_right_of_le (length_le_length_flatMap areWritten)

theorem between_append {opening closing : String} {value : α} {inner front : List Char}
    (isOpening : mark opening text = .matched () inner)
    (isInner : reader inner = .matched value front)
    (isClosing : mark closing front = .matched () rest) :
    between opening closing reader text = .matched value rest := by
  have isOpened : (mark opening *> reader) text = .matched value front :=
    (bind_eq_of_matched isOpening).trans isInner
  refine (bind_eq_of_matched isOpened).trans ?_
  exact bind_eq_of_matched isClosing

theorem toList_intercalate_cons {comma first : String} {others : List String} :
    (comma.intercalate (first :: others)).toList =
      first.toList ++ others.flatMap fun word => comma.toList ++ word.toList := by
  induction others generalizing first with
  | nil => simp
  | cons second others ih =>
      rw [String.intercalate_cons_cons, String.toList_append, ih]
      simp

/-- Values are read as they are written, between parentheses and with commas between them.
Blanks may follow a comma. -/
theorem parenthesized_append (comma : String) (written : α → String) {items : List α}
    (isComma : comma.toList ≠ [])
    (readsNext : ∀ text, (mark "," *> reader) (comma.toList ++ text) = reader text)
    (reads : ∀ item ∈ items, ∀ rest, ends rest →
      reader ((written item).toList ++ rest) = .matched item rest)
    (mayFollow : ∀ text, ends (comma.toList ++ text)) (mayEnd : ends (')' :: rest))
    (stops : reader (')' :: rest) = .unmatched) :
    parenthesized reader
      ('(' :: ((comma.intercalate (items.map written)).toList ++ ')' :: rest)) =
        .matched items rest := by
  suffices areItems : separatedOrNone (mark ",") reader
      ((comma.intercalate (items.map written)).toList ++ ')' :: rest) =
        .matched items (')' :: rest) from between_append rfl areItems rfl
  cases items with
  | nil => exact orElse_eq_of_unmatched (bind_eq_of_unmatched stops)
  | cons first others =>
      obtain ⟨readsFirst, readsOthers⟩ := List.forall_mem_cons.mp reads
      let later (item : α) : List Char := comma.toList ++ (written item).toList
      have firstEnds : ends (others.flatMap later ++ ')' :: rest) := by
        cases others with
        | nil => exact mayEnd
        | cons second others =>
            rw [List.flatMap_cons, List.append_assoc, List.append_assoc]
            exact mayFollow _
      have areOthers : many (mark "," *> reader) (others.flatMap later ++ ')' :: rest) =
          .matched (others.map id) (')' :: rest) := by
        refine many_append ends (fun item isIn rest isEnd => ?_) (fun item rest => ?_) mayEnd
          (bind_eq_of_unmatched rfl) fun item => List.append_ne_nil_of_left_ne_nil isComma _
        · rw [List.append_assoc, readsNext]
          exact readsOthers item isIn rest isEnd
        · rw [List.append_assoc]
          exact mayFollow _
      rw [List.map_cons, toList_intercalate_cons, List.flatMap_map, List.append_assoc]
      apply orElse_eq_of_matched
      refine (bind_eq_of_matched (readsFirst _ firstEnds)).trans ?_
      refine (bind_eq_of_matched areOthers).trans ?_
      rw [List.map_id]
      rfl

end Repetition

section Types

variable {ty : Ty}

/-- What a type that is no array is read by. -/
def baseType : Reader Ty := oneOfKeywords primitiveTypes <|> (Ty.named <$> className)

theorem baseType_append (isBase : ∀ elem, ty ≠ .array elem) (isSpelled : ty.IsSpelled)
    (ends : rest.head?.any isClassNameChar = false) :
    baseType (ty.render.toList ++ rest) = .matched ty rest := by
  have start : ∀ entry ∈ primitiveTypes, entry.1.toList.head?.any isWordStart = true := by decide
  have apart : ∀ first ∈ primitiveTypes, ∀ second ∈ primitiveTypes,
      first.1.toList <+: second.1.toList → first = second := by decide
  have primitive (isPrimitive : (ty.render, ty) ∈ primitiveTypes) :
      baseType (ty.render.toList ++ rest) = .matched ty rest := by
    have isRead := oneOfKeywords_append start apart isPrimitive (head?_isWordChar ends)
    exact orElse_eq_of_matched isRead
  cases ty with
  | named name =>
      obtain ⟨isName, hides⟩ := isSpelled name rfl
      refine (orElse_eq_of_unmatched (primitiveTypes_unmatched isName hides ends)).trans ?_
      exact bind_eq_of_matched (wordOf_append isName ends)
  | array elem => exact absurd rfl (isBase elem)
  | _ => exact primitive (by decide)

/-- A word stands where there is no bracket. -/
theorem bracket_unmatched {word : List Char} (starts : word.head?.any isWordStart = true) :
    mark "[" (' ' :: (word ++ rest)) = .unmatched := by
  have isMet : skipBlanks false (' ' :: (word ++ rest)) = word ++ rest :=
    skipBlanks_of_startsWord starts
  rw [mark, isMet]
  cases word with
  | nil => cases starts
  | cons c word =>
      have notBracket : '[' ≠ c := by
        rintro rfl
        cases starts
      simp [dropGiven?, notBracket]

/-- A type ends where neither the name of a class nor the dimensions of an array go on. -/
def EndsType (rest : List Char) : Prop :=
  rest.head?.any isClassNameChar = false ∧ mark "[" rest = .unmatched

/-- A type is read as it is written. -/
theorem type_append (isSpelled : ty.IsSpelled) (ends : EndsType rest) :
    type (ty.render.toList ++ rest) = .matched ty rest := by
  have isBase : ty.innermost.IsSpelled := by
    intro name isNamed
    rw [Ty.innermost_innermost] at isNamed
    exact isSpelled name isNamed
  have baseEnds : ((ty.dimensions.flatMap fun _ => ['[', ']']) ++ rest).head?.any isClassNameChar =
      false := by
    cases ty.dimensions with
    | nil => exact ends.1
    | cons _ _ => rfl
  have areDimensions : many (mark "[" *> mark "]")
      ((ty.dimensions.flatMap fun _ => ['[', ']']) ++ rest) =
        .matched (ty.dimensions.map id) rest :=
    many_append (fun _ => True) (fun _ _ _ _ => rfl) (fun _ _ => trivial) trivial
      (bind_eq_of_unmatched ends.2) nofun
  rw [Ty.toList_render, List.append_assoc]
  refine (bind_eq_of_matched (baseType_append (fun _ => Ty.innermost_ne_array) isBase
    baseEnds)).trans ?_
  refine (bind_eq_of_matched areDimensions).trans ?_
  rw [List.map_id, Ty.foldl_dimensions]
  rfl

/-- Types are read as they are written, between parentheses and with commas between them. -/
theorem parenthesizedTypes_append {types : List Ty} (areSpelled : ∀ ty ∈ types, ty.IsSpelled) :
    parenthesized type
      ('(' :: ((",".intercalate (types.map Ty.render)).toList ++ ')' :: rest)) =
        .matched types rest :=
  parenthesized_append EndsType "," Ty.render (by decide) (fun _ => rfl)
    (fun ty isIn _ ends => type_append (areSpelled ty isIn) ends) (fun _ => ⟨rfl, rfl⟩)
    ⟨rfl, rfl⟩ rfl

end Types

theorem type_space : type (' ' :: text) = type text := rfl

theorem identifier_space : identifier (' ' :: text) = identifier text := rfl

theorem methodName_space : methodName (' ' :: text) = methodName text := rfl

/-- A method that is written in full is read, whatever follows. -/
theorem methodName_append {name : MethodName} (isOwner : IsClassName name.owner)
    (isName : IsIdentifier name.sub.name)
    (areSpelled : ∀ ty ∈ name.sub.ret :: name.sub.params, ty.IsSpelled) :
    methodName ((renderSignature name.owner name.sub).toList ++ rest) = .matched name rest := by
  obtain ⟨isRet, areParams⟩ := List.forall_mem_cons.mp areSpelled
  have isWritten : (renderSignature name.owner name.sub).toList ++ rest =
      '<' :: (name.owner.toList ++ ':' :: ' ' :: (name.sub.ret.render.toList ++
        ' ' :: (name.sub.name.toList ++ '(' ::
          ((",".intercalate (name.sub.params.map Ty.render)).toList ++ ')' :: '>' :: rest)))) := by
    simp [renderSignature, Subsignature.render]
  have retEnds : EndsType (' ' :: (name.sub.name.toList ++ '(' ::
      ((",".intercalate (name.sub.params.map Ty.render)).toList ++ ')' :: '>' :: rest))) := by
    refine ⟨rfl, ?_⟩
    exact bracket_unmatched isName.starts
  rw [isWritten]
  refine (bind_eq_of_matched (show mark "<" ('<' :: _) = .matched () _ from rfl)).trans ?_
  refine (bind_eq_of_matched (wordOf_append isOwner rfl)).trans ?_
  refine (bind_eq_of_matched (show mark ":" (':' :: _) = .matched () _ from rfl)).trans ?_
  refine (bind_eq_of_matched (type_space.trans (type_append isRet retEnds))).trans ?_
  refine (bind_eq_of_matched (identifier_space.trans (wordOf_append isName rfl))).trans ?_
  refine (bind_eq_of_matched (parenthesizedTypes_append areParams)).trans ?_
  exact bind_eq_of_matched (show mark ">" ('>' :: rest) = .matched () rest from rfl)

/-- An entry directive that is written with a method in full is read. -/
theorem entry_append {name : MethodName} (isOwner : IsClassName name.owner)
    (isName : IsIdentifier name.sub.name)
    (areSpelled : ∀ ty ∈ name.sub.ret :: name.sub.params, ty.IsSpelled) :
    entry (("entry " ++ renderSignature name.owner name.sub ++ ";").toList ++ rest) =
      .matched name rest := by
  have isWritten : ("entry " ++ renderSignature name.owner name.sub ++ ";").toList ++ rest =
      "entry".toList ++ ' ' :: ((renderSignature name.owner name.sub).toList ++ ';' :: rest) := by
    simp
  have isNamed : (keyword "entry" *> methodName)
      ("entry".toList ++ ' ' :: ((renderSignature name.owner name.sub).toList ++ ';' :: rest)) =
        .matched name (';' :: rest) := by
    refine (bind_eq_of_matched (keyword_append rfl rfl)).trans ?_
    exact methodName_space.trans (methodName_append isOwner isName areSpelled)
  rw [isWritten]
  refine (bind_eq_of_matched isNamed).trans ?_
  exact bind_eq_of_matched (show mark ";" (';' :: rest) = .matched () rest from rfl)

end Reader

end Source

end TacAnalysis
