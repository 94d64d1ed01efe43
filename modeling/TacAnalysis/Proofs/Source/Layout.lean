/-
# Layout does not matter

The readers of the grammar read alike what differs by the layout of one place only, so that
two such texts have the same declarations or none. The place must not be within a comment
or right after a slash, and a comment must not stand right after a word. It is the names of
classes that ask for the latter: keywords, numbers and all other names end before a comment,
and what is made of these (comparisons, jumps, elements of arrays) is read alike in any
layout. But a path is first tried as one that starts with the name of a class.
-/

import TacAnalysis.Proofs.Resolution.Building
import TacAnalysis.Proofs.Source.Gap

namespace TacAnalysis.Source

namespace Gap

variable {gap : Gap} {α : Type} {reader : Reader α}

open Reader

section Marks

theorem consumes_oneOfMarks {table : List (String × α)}
    (areMarks : ∀ entry ∈ table, IsMark entry.1) : gap.Consumes (oneOfMarks table) := by
  apply consumes_firstOf
  intro reader isReader
  obtain ⟨entry, isEntry, rfl⟩ := List.mem_map.mp isReader
  exact (consumes_mark (areMarks entry isEntry)).map _

theorem consumes_oneOfKeywords {table : List (String × α)}
    (areMarks : ∀ entry ∈ table, IsMark entry.1) : gap.Consumes (oneOfKeywords table) := by
  apply consumes_firstOf
  intro reader isReader
  obtain ⟨entry, isEntry, rfl⟩ := List.mem_map.mp isReader
  exact (consumes_keyword (areMarks entry isEntry)).map _

theorem Respects.between {opening closing : String} (respects : gap.Respects reader)
    (isOpening : IsMark opening) (isClosing : IsMark closing) :
    gap.Consumes (between opening closing reader) := by
  refine (Consumes.bind (consumes_mark isOpening) fun _ => respects).bind fun value => ?_
  exact ((consumes_mark isClosing).bind fun _ => respects_pure value).toRespects

theorem Consumes.parenthesized (consumes : gap.Consumes reader) :
    gap.Consumes (parenthesized reader) := by
  refine Respects.between (Respects.orElse ?_ (respects_pure [])) (by decide) (by decide)
  exact (consumes.separated (consumes_mark (by decide)) rfl).toRespects

theorem Consumes.commaSeparated (consumes : gap.Consumes reader) :
    gap.Consumes (Reader.separated (mark ",") reader) :=
  consumes.separated (consumes_mark (by decide)) rfl

end Marks

section Types

theorem consumes_type (apart : gap.Apart) : gap.Consumes type := by
  refine Consumes.bind (Consumes.orElse ?_ ((consumes_className apart).map _)) fun base => ?_
  · exact consumes_oneOfKeywords (by decide)
  · have brackets : gap.Consumes (mark "[" *> mark "]") :=
      (consumes_mark (by decide)).bind fun _ => (consumes_mark (by decide)).toRespects
    exact (brackets.many rfl).bind fun _ => respects_pure _

theorem consumes_methodName (apart : gap.Apart) : gap.Consumes methodName := by
  refine (consumes_mark (by decide)).bind fun _ => ?_
  refine (consumes_className apart).toRespects.bind fun _ => ?_
  refine (consumes_mark (by decide)).toRespects.bind fun _ => ?_
  refine (consumes_type apart).toRespects.bind fun _ => (consumes_identifier).toRespects.bind fun _ => ?_
  refine (consumes_type apart).parenthesized.toRespects.bind fun _ => ?_
  exact (consumes_mark (by decide)).toRespects.bind fun _ => respects_pure _

end Types

section Operands

theorem consumes_operator : gap.Consumes operator := consumes_oneOfMarks (by decide)

theorem respects_comparison : gap.Respects comparison := by
  refine (consumes_operator).toRespects.bind fun op => ?_
  split
  · exact respects_pure op
  · exact respects_fail

theorem consumes_call (apart : gap.Apart) : gap.Consumes call := by
  have args : gap.Consumes (parenthesized identifier) := (consumes_identifier).parenthesized
  apply Consumes.orElse
  · refine (consumes_keyword (by decide)).bind fun _ => ?_
    refine (consumes_methodName apart).toRespects.bind fun _ => ?_
    exact args.toRespects.bind fun _ => respects_pure _
  · refine (consumes_oneOfKeywords (by decide)).bind fun _ => ?_
    refine (consumes_identifier).toRespects.bind fun _ => ?_
    refine (consumes_mark (by decide)).toRespects.bind fun _ => ?_
    refine (consumes_methodName apart).toRespects.bind fun _ => ?_
    exact args.toRespects.bind fun _ => respects_pure _

theorem consumes_fieldPath (apart : gap.Apart) : gap.Consumes fieldPath := by
  have name (f : String → FieldPath) : gap.Respects (identifier >>= fun name => pure (f name)) :=
    (consumes_identifier).toRespects.bind fun _ => respects_pure _
  apply Consumes.orElse
  · refine (consumes_className apart).bind fun owner => ?_
    exact (consumes_mark (by decide)).toRespects.bind fun _ => name _
  · refine (consumes_identifier).bind fun base => ?_
    exact (consumes_mark (by decide)).toRespects.bind fun _ => name _

theorem consumes_element : gap.Consumes element := by
  refine (consumes_identifier).bind fun _ => ?_
  refine Respects.bind ?_ fun _ => respects_pure _
  exact ((consumes_identifier).toRespects.between (by decide) (by decide)).toRespects

theorem consumes_operand (apart : gap.Apart) : gap.Consumes operand := by
  apply consumes_firstOf
  simp only [List.forall_mem_cons]
  refine ⟨?new, (consumes_call apart).map _, ?cast, (consumes_number).map _,
    (consumes_keyword (by decide)).map _, (consumes_fieldPath apart).map _, (consumes_element).map _,
    ?binary, (consumes_identifier).map _, nofun⟩
  case new =>
    exact (Consumes.bind (consumes_keyword (by decide)) fun _ => (consumes_type apart).toRespects).map _
  case cast =>
    refine ((consumes_type apart).toRespects.between (by decide) (by decide)).bind fun _ => ?_
    exact (consumes_identifier).toRespects.bind fun _ => respects_pure _
  case binary =>
    refine (consumes_identifier).bind fun _ => (consumes_operator).toRespects.bind fun _ => ?_
    exact (consumes_identifier).toRespects.bind fun _ => respects_pure _

end Operands

section Statements

theorem consumes_switchEntry : gap.Consumes switchEntry := by
  have target (value : Option Int32) : gap.Respects
      (mark "->" >>= fun _ => identifier >>= fun label => pure (value, label)) := by
    refine (consumes_mark (by decide)).toRespects.bind fun _ => ?_
    exact (consumes_identifier).toRespects.bind fun _ => respects_pure _
  apply Consumes.orElse
  · exact (consumes_keyword (by decide)).bind fun _ => target none
  · exact (consumes_number).bind fun value => target (some value)

theorem consumes_switch : gap.Consumes switch := by
  refine (consumes_keyword (by decide)).bind fun _ => ?_
  refine (consumes_identifier).toRespects.bind fun scrutinee => ?_
  refine Respects.bind ?_ fun entries => ?_
  · exact ((consumes_switchEntry).commaSeparated.toRespects.between (by decide)
      (by decide)).toRespects
  · rcases switchDefaults entries with _ | ⟨label, _ | _⟩
    · exact respects_refuse _
    · exact respects_pure _
    · exact respects_refuse _

theorem consumes_branch : gap.Consumes branch := by
  refine (consumes_keyword (by decide)).bind fun _ => ?_
  refine (consumes_identifier).toRespects.bind fun _ => (respects_comparison).bind fun _ => ?_
  refine (consumes_identifier).toRespects.bind fun _ => ?_
  refine (consumes_keyword (by decide)).toRespects.bind fun _ => ?_
  exact (consumes_identifier).toRespects.bind fun _ => respects_pure _

/-- What assigns the value of a variable to something that is read. -/
theorem Consumes.store {Target : Type} {reader : Reader Target} (consumes : gap.Consumes reader)
    (f : Target → String → Action) : gap.Consumes (reader >>= fun target => mark "=" >>= fun _ =>
      identifier >>= fun source => pure (f target source)) := by
  refine consumes.bind fun target => (consumes_mark (by decide)).toRespects.bind fun _ => ?_
  exact (consumes_identifier).toRespects.bind fun _ => respects_pure _

theorem consumes_assignment (apart : gap.Apart) : gap.Consumes assignment := by
  refine (consumes_identifier).bind fun _ => (consumes_mark (by decide)).toRespects.bind fun _ => ?_
  exact (consumes_operand apart).toRespects.bind fun _ => respects_pure _

theorem consumes_action (apart : gap.Apart) : gap.Consumes action := by
  apply consumes_firstOf
  simp only [List.forall_mem_cons]
  refine ⟨(consumes_keyword (by decide)).map _, ?ret, ?goto, consumes_branch, consumes_switch,
    (consumes_call apart).map _, (consumes_fieldPath apart).store _, (consumes_element).store _,
    consumes_assignment apart, nofun⟩
  case ret =>
    exact (Consumes.bind (consumes_keyword (by decide)) fun _ =>
      (consumes_identifier).toRespects.optional).map _
  case goto =>
    exact (Consumes.bind (consumes_keyword (by decide)) fun _ =>
      (consumes_identifier).toRespects).map _

/-- The layout after the colon of a label does not begin with a colon. -/
theorem respects_label : gap.Respects label := by
  refine (consumes_identifier).toRespects.bind fun name => ?_
  refine (consumes_mark (by decide)).toRespects.bind fun _ => ⟨?shrinks, ?agree⟩
  case shrinks =>
    intro text value rest isMatched
    split at isMatched
    case isTrue => cases isMatched
    case isFalse =>
        cases isMatched
        exact Nat.le_refl _
  case agree =>
    intro text other alike
    have sameColon : text.head? = some ':' ↔ other.head? = some ':' := by
      rcases alike with rfl | ⟨front, -, rfl, rfl⟩
      · rfl
      · obtain ⟨⟨first, _, isFirst, notFirst⟩, ⟨second, _, isSecond, notSecond⟩⟩ :=
          gap.exists_starts (· ≠ ':') (fun c isBlank => by rintro rfl; cases isBlank)
            (by decide)
        cases front with
        | nil => simp [isFirst, isSecond, notFirst, notSecond]
        | cons => rfl
    simp only [sameColon]
    split
    · exact .unmatched
    · exact .matched name alike

theorem consumes_line (apart : gap.Apart) : gap.Consumes line := by
  refine (respects_label).optional.bindConsumes fun _ => (consumes_action apart).bind fun _ => ?_
  exact (consumes_mark (by decide)).toRespects.bind fun _ => respects_pure _

theorem consumes_variableDecls (apart : gap.Apart) : gap.Consumes variableDecls := by
  refine (consumes_keyword (by decide)).bind fun _ => (consumes_type apart).toRespects.bind fun _ => ?_
  refine (consumes_identifier).commaSeparated.toRespects.bind fun _ => ?_
  exact (consumes_mark (by decide)).toRespects.bind fun _ => respects_pure _

theorem consumes_body (apart : gap.Apart) : gap.Consumes body := by
  have items : gap.Respects (many ((Sum.inl <$> variableDecls) <|> (Sum.inr <$> line))) :=
    (((consumes_variableDecls apart).map _).orElse ((consumes_line apart).map _)).many rfl
  exact (items.between (by decide) (by decide)).bind fun _ => respects_pure _

end Statements

section Declarations

theorem consumes_field (apart : gap.Apart) : gap.Consumes field := by
  refine Respects.bindConsumes (consumes_keyword (by decide)).toRespects.optional fun _ => ?_
  refine (consumes_keyword (by decide)).bind fun _ => (consumes_type apart).toRespects.bind fun _ => ?_
  refine (consumes_identifier).toRespects.bind fun _ => ?_
  exact (consumes_mark (by decide)).toRespects.bind fun _ => respects_pure _

theorem consumes_parameter (apart : gap.Apart) : gap.Consumes parameter := by
  refine (consumes_type apart).bind fun _ => ?_
  exact (consumes_identifier).toRespects.bind fun _ => respects_pure _

theorem consumes_method (apart : gap.Apart) : gap.Consumes method := by
  have modifiers : gap.Respects
      (many (oneOfKeywords [("static", Modifier.static), ("abstract", .abstract)])) :=
    (consumes_oneOfKeywords (by decide)).many rfl
  refine modifiers.bindConsumes fun _ => (consumes_keyword (by decide)).bind fun _ => ?_
  refine (consumes_identifier).toRespects.bind fun _ => ?_
  refine (consumes_parameter apart).parenthesized.toRespects.bind fun _ => ?_
  refine (consumes_mark (by decide)).toRespects.bind fun _ => ?_
  refine (consumes_type apart).toRespects.bind fun _ => Respects.bind ?_ fun _ => respects_pure _
  exact (((consumes_mark (by decide)).map _).orElse ((consumes_body apart).map _)).toRespects

theorem respects_namesAfter (apart : gap.Apart) {word : String} (isMark : IsMark word) :
    gap.Respects (namesAfter word) := by
  refine Respects.bind (Respects.optional ?_) fun _ => respects_pure _
  exact ((consumes_keyword isMark).bind fun _ =>
    (consumes_className apart).commaSeparated.toRespects).toRespects

theorem consumes_classDecl (apart : gap.Apart) : gap.Consumes classDecl := by
  have members : gap.Respects (many ((Sum.inl <$> field) <|> (Sum.inr <$> method))) :=
    (((consumes_field apart).map _).orElse ((consumes_method apart).map _)).many rfl
  refine Respects.bindConsumes (consumes_keyword (by decide)).toRespects.optional fun _ => ?_
  refine (consumes_oneOfKeywords (by decide)).bind fun _ => ?_
  refine (consumes_className apart).toRespects.bind fun _ => ?_
  refine (respects_namesAfter apart (by decide)).bind fun _ => ?_
  refine (respects_namesAfter apart (by decide)).bind fun _ => ?_
  exact (members.between (by decide) (by decide)).toRespects.bind fun _ => respects_pure _

theorem consumes_entry (apart : gap.Apart) : gap.Consumes entry := by
  refine Consumes.bind ?_ fun name => ?_
  · exact Consumes.bind (consumes_keyword (by decide)) fun _ => (consumes_methodName apart).toRespects
  · exact ((consumes_mark (by decide)).bind fun _ => respects_pure name).toRespects

theorem respects_declarations (apart : gap.Apart) : gap.Respects declarations := by
  have items : gap.Respects (many ((Sum.inl <$> classDecl) <|> (Sum.inr <$> entry))) :=
    (((consumes_classDecl apart).map _).orElse ((consumes_entry apart).map _)).many rfl
  exact items.bind fun _ => respects_pure _

/-- Whichever of the two layouts is there, the declarations are the same. -/
theorem parse_second (gap : Gap) (apart : gap.Apart) {decls : Declarations}
    (isParsed : parse (gap.before ++ (gap.first ++ gap.after)) = .ok decls) :
    parse (gap.before ++ (gap.second ++ gap.after)) = .ok decls := by
  have alike : gap.Alike (gap.before ++ (gap.first ++ gap.after))
      (gap.before ++ (gap.second ++ gap.after)) :=
    .inr ⟨gap.before, List.suffix_rfl, rfl, rfl⟩
  have agree := (respects_declarations apart).agree alike
  unfold parse at isParsed ⊢
  generalize declarations (gap.before ++ (gap.first ++ gap.after)) = outcome,
    declarations (gap.before ++ (gap.second ++ gap.after)) = otherOutcome at agree isParsed
  cases agree with
  | @matched found rest other alike =>
      have isRead : skipBlanks false rest = [] ∧ found = decls := by
        cases isRest : skipBlanks false rest with
        | nil =>
            simp only [isRest] at isParsed
            cases isParsed
            exact ⟨rfl, rfl⟩
        | cons c unread =>
            simp only [isRest] at isParsed
            cases isParsed
      rcases alike_skipBlanks alike with isSame | ⟨c, others, -, isText, -⟩
      · simp only [← isSame, isRead.1, isRead.2]
      · rw [isRead.1] at isText
        cases isText
  | unmatched => cases isParsed
  | refused error => cases isParsed

end Declarations

end Gap

/-- White space somewhere in a text may be replaced by other white space and by comments,
unless it is right after a slash or within a comment, or a comment would stand right after a
word. It makes no difference whether the word is meant for a class: no word is reserved, and
whatever may start a path is tried as the name of a class first, together with the comment. -/
theorem parse_of_layout {before blanks layout after : List Char} {decls : Declarations}
    (notOpen : ¬EndsInComment before) (noSlash : before.getLast? ≠ some '/')
    (someBlanks : blanks ≠ []) (areBlanks : ∀ c ∈ blanks, isBlank c = true)
    (someLayout : layout ≠ []) (isLayout : Layout layout)
    (notGlued : EndsWithWord before → ∀ c ∈ layout.head?, isBlank c = true)
    (isParsed : parse (before ++ blanks ++ after) = .ok decls) :
    parse (before ++ layout ++ after) = .ok decls := by
  let gap : Gap := ⟨before, blanks, layout, after, notOpen, noSlash,
    ⟨layout_of_isBlank areBlanks, someBlanks⟩, ⟨isLayout, someLayout⟩⟩
  have apart : gap.Apart :=
    ⟨fun _ c isFirst => areBlanks c (List.mem_of_mem_head? isFirst), notGlued⟩
  rw [List.append_assoc] at isParsed ⊢
  exact gap.parse_second apart isParsed

/-- Two comments after a semicolon. -/
theorem parse_of_layout_commented : ∃ before blanks layout after decls,
    before = "class Main \x7b method m(Main x) : Main \x7b return x;".toList ∧ blanks = [' '] ∧
    layout = ['/', '/', 'c', '\n', '\t', '/', '/', '\n'] ∧ after = "\x7d \x7d".toList ∧
    ¬EndsInComment before ∧ before.getLast? ≠ some '/' ∧
    blanks ≠ [] ∧ (∀ c ∈ blanks, isBlank c = true) ∧ layout ≠ [] ∧ Layout layout ∧
    (EndsWithWord before → ∀ c ∈ layout.head?, isBlank c = true) ∧
    parse (before ++ blanks ++ after) = .ok decls ∧
    parse (before ++ layout ++ after) = .ok decls := by
  let before := "class Main \x7b method m(Main x) : Main \x7b return x;".toList
  let layout := ['/', '/', 'c', '\n', '\t', '/', '/', '\n']
  have passes : (parse (before ++ [' '] ++ "\x7d \x7d".toList)).toOption.any
      (fun _ => true) = true := by decide +kernel
  obtain ⟨decls, isParsed, -⟩ := exists_of_test passes
  have notOpen : ¬EndsInComment before := by decide +kernel
  have noSlash : before.getLast? ≠ some '/' := by decide +kernel
  have isLayout : Layout layout :=
    @Layout.comment ['c'] _ (by simp) (.blank rfl (@Layout.comment [] _ (by simp) .nil))
  have noWord : ¬EndsWithWord before := by decide +kernel
  have areBlanks : ∀ c ∈ [' '], isBlank c = true := List.forall_mem_singleton.mpr rfl
  exact ⟨before, [' '], layout, "\x7d \x7d".toList, decls, rfl, rfl, rfl, rfl, notOpen, noSlash,
    by decide, areBlanks, by decide, isLayout, fun isWord => absurd isWord noWord, isParsed,
    parse_of_layout notOpen noSlash (by decide) areBlanks (by decide) isLayout
      (fun isWord => absurd isWord noWord) isParsed⟩

/-- A comment right after the name of a class is taken for a part of the name, even though
white space at its place is not. -/
theorem not_parse_of_layout : ¬∀ (before blanks layout after : List Char) (decls : Declarations),
    ¬EndsInComment before → before.getLast? ≠ some '/' →
    blanks ≠ [] → (∀ c ∈ blanks, isBlank c = true) → layout ≠ [] → Layout layout →
    parse (before ++ blanks ++ after) = .ok decls →
    parse (before ++ layout ++ after) = .ok decls := by
  intro holds
  let before := "class Main \x7b static method main() : void \x7b var Main x; x = new Main".toList
  let after := "; return; \x7d \x7d".toList
  have differs : (parse (before ++ [' '] ++ after)).toOption.any (fun decls =>
      (parse (before ++ ['/', '/', 'c', '\n'] ++ after)).toOption != some decls) = true := by
    decide +kernel
  obtain ⟨decls, isParsed, isOther⟩ := exists_of_test differs
  have isLayout : Layout ['/', '/', 'c', '\n'] := @Layout.comment ['c'] _ (by simp) .nil
  have areBlanks : ∀ c ∈ [' '], isBlank c = true := List.forall_mem_singleton.mpr rfl
  have isParsedToo := holds before [' '] ['/', '/', 'c', '\n'] after decls (by decide +kernel)
    (by decide +kernel) (by decide) areBlanks (by decide) isLayout isParsed
  rw [isParsedToo] at isOther
  simp [Except.toOption] at isOther

-- The name of a variable does not end before a comment either, when the comment goes on like
-- the path of a static field.
example :
    let before := "class Main \x7b static method main() : void \x7b var Main x, y; x".toList
    let after := "= y; return; \x7d \x7d".toList
    (parse (before ++ [' '] ++ after)).toOption.isSome = true ∧
      (parse (before ++ "// ::f = y;\n".toList ++ after)).toOption.isSome = false := by
  decide +kernel

end TacAnalysis.Source
