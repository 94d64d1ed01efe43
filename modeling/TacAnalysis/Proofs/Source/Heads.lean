/-
# What is read at a name

There is no separate pass that cuts a text into words, so that a name could be taken for a
keyword, a class for a variable, or a field of a class for a label. The alternatives of the
grammar are gone through in their order for a text that starts with a name: a keyword is read
there only when it is the first part of the name of a class, before a slash. A slash starts
nothing but comments, so that what has to come after a keyword is not found there. Only `nop`,
`return` and `null`, which nothing has to come after, are taken for what they are, and leave
the rest of the name unread.
-/

import TacAnalysis.Proofs.Source.Signatures

namespace TacAnalysis.Source

open Reader

/-- The keywords of program texts. -/
def keywords : List String :=
  ["class", "interface", "abstract", "extends", "implements", "static", "field", "method", "var",
    "entry", "nop", "return", "goto", "if", "switch", "default", "new", "null", "invokestatic"] ++
    instanceCallKinds.map Prod.fst ++ primitiveTypes.map Prod.fst

/-- A word is the first part of the name of a class, before a slash. -/
def Opens (word name : String) : Prop := word.toList ++ ['/'] <+: name.toList

instance {word name : String} : Decidable (Opens word name) :=
  inferInstanceAs (Decidable (_ <+: _))

/-- The name of a class or of something else that is no keyword. -/
structure IsHead (name : String) : Prop where
  isClassName : IsClassName name
  notKeyword : name ∉ keywords

/-- The name of a variable that is no keyword. -/
structure IsPlain (name : String) : Prop where
  isIdentifier : IsIdentifier name
  notKeyword : name ∉ keywords

/-- After its blanks, a text is at its end or goes on with a slash. -/
def Stuck (text : List Char) : Prop := ∀ c ∈ (skipBlanks false text).head?, c = '/'

variable {text rest : List Char} {name word : String}

theorem isClassNameChar_of_isWordChar {c : Char} (isWord : isWordChar c = true) :
    isClassNameChar c = true := by
  rw [isClassNameChar, isWord, Bool.true_or]

theorem isWordChar_of_isWordStart {c : Char} (isStart : isWordStart c = true) :
    isWordChar c = true := by
  simp only [isWordStart, isWordChar, Char.isAlphanum, Bool.or_eq_true] at *
  exact isStart.imp_left (Or.imp_left Or.inl)

theorem IsIdentifier.isClassName (isName : IsIdentifier name) : IsClassName name := by
  obtain ⟨c, others, isText, starts, areOthers⟩ := isName
  exact ⟨c, others, isText, starts, fun d isIn => isClassNameChar_of_isWordChar (areOthers d isIn)⟩

theorem IsIdentifier.isWordChar (isName : IsIdentifier name) :
    ∀ c ∈ name.toList, isWordChar c = true := by
  obtain ⟨c, others, isText, starts, areOthers⟩ := isName
  rw [isText]
  exact List.forall_mem_cons.mpr ⟨isWordChar_of_isWordStart starts, areOthers⟩

theorem IsClassName.isClassNameChar (isName : IsClassName name) :
    ∀ c ∈ name.toList, isClassNameChar c = true := by
  obtain ⟨c, others, isText, starts, areOthers⟩ := isName
  rw [isText]
  exact List.forall_mem_cons.mpr
    ⟨isClassNameChar_of_isWordChar (isWordChar_of_isWordStart starts), areOthers⟩

theorem Opens.slash_mem (opens : Opens word name) : '/' ∈ name.toList :=
  opens.subset (List.mem_append_right _ (List.mem_singleton.mpr rfl))

theorem IsIdentifier.slash_not_mem (isName : IsIdentifier name) : '/' ∉ name.toList :=
  fun isIn => absurd (isName.isWordChar '/' isIn) (by decide)

/-- The name of a variable has no parts. -/
theorem IsPlain.not_opens (isPlain : IsPlain name) (word : String) : ¬ Opens word name :=
  fun opens => isPlain.isIdentifier.slash_not_mem opens.slash_mem

theorem IsPlain.isHead (isPlain : IsPlain name) : IsHead name :=
  ⟨isPlain.isIdentifier.isClassName, isPlain.notKeyword⟩

section Stuck

/-- A comment goes on to the end of the line. -/
theorem skipBlanks_comment (oneLine : '\n' ∉ text) : skipBlanks true text = [] := by
  induction text with
  | nil => rfl
  | cons c text ih =>
      obtain ⟨isOther, oneLine⟩ := not_or.mp (List.mem_cons.not.mp oneLine)
      have goesOn : (c != '\n') = true := bne_iff_ne.mpr (Ne.symm isOther)
      rw [skipBlanks, if_pos rfl, goesOn, ih oneLine]

theorem stuck_slash (oneLine : '\n' ∉ text) : Stuck ('/' :: text) := by
  intro c isFirst
  rw [skipBlanks, if_neg Bool.false_ne_true, if_neg (by decide)] at isFirst
  split at isFirst
  · rw [skipBlanks_comment oneLine] at isFirst
    cases isFirst
  · exact (Option.some.inj isFirst).symm

theorem dropGiven?_of_head {c : Char} {given : List Char}
    (differs : given.head?.any (· != c) = true) : dropGiven? given (c :: text) = none := by
  cases given with
  | nil => cases differs
  | cons d given =>
      have isOther : d ≠ c := by simpa using differs
      rw [dropGiven?, if_neg isOther]

theorem Stuck.dropGiven? (stuck : Stuck text) {given : List Char}
    (isGiven : given.head?.any (· != '/') = true) :
    dropGiven? given (skipBlanks false text) = none := by
  cases isText : skipBlanks false text with
  | nil =>
      cases given with
      | nil => cases isGiven
      | cons d given => rfl
  | cons c others =>
      have isSlash := stuck c (by simp [isText])
      exact isSlash ▸ dropGiven?_of_head isGiven

theorem Stuck.mark_unmatched (stuck : Stuck text) {mark : String}
    (isMark : mark.toList.head?.any (· != '/') = true) : Reader.mark mark text = .unmatched := by
  rw [Reader.mark, stuck.dropGiven? isMark]

theorem Stuck.keyword_unmatched (stuck : Stuck text)
    (isMark : word.toList.head?.any (· != '/') = true) : keyword word text = .unmatched := by
  rw [keyword, stuck.dropGiven? isMark]

theorem Stuck.wordOf_unmatched (stuck : Stuck text) {continues : Char → Bool} :
    wordOf continues text = .unmatched := by
  rw [wordOf]
  split
  case h_1 => rfl
  case h_2 c others isText =>
      rw [stuck c (by simp [isText])]
      rfl

theorem Stuck.type_unmatched (stuck : Stuck text) : type text = .unmatched := by
  have areWords : ∀ entry ∈ primitiveTypes, entry.1.toList.head?.any (· != '/') = true := by
    decide
  have notPrimitive : oneOfKeywords primitiveTypes text = .unmatched := by
    apply firstOf_eq_unmatched
    intro reader isReader
    obtain ⟨entry, isEntry, rfl⟩ := List.mem_map.mp isReader
    exact bind_eq_of_unmatched (stuck.keyword_unmatched (areWords entry isEntry))
  have notNamed : (Ty.named <$> className) text = .unmatched :=
    bind_eq_of_unmatched stuck.wordOf_unmatched
  exact bind_eq_of_unmatched ((orElse_eq_of_unmatched notPrimitive).trans notNamed)

end Stuck

namespace Reader

variable {α β : Type}

section Heads

/-- A word of a name is no longer than the keyword that it is, when it is not the first part
of the name. -/
theorem keyword_head (isHead : IsHead name) (isKeyword : word ∈ keywords)
    (notOpened : ¬ Opens word name) (ends : rest.head?.any isClassNameChar = false) :
    keyword word (name.toList ++ rest) = .unmatched := by
  have areWords : ∀ word ∈ keywords, word.toList.all isClassNameChar = true := by decide
  apply keyword_unmatched isHead.isClassName.starts
  · intro others isLonger
    cases others with
    | nil =>
        rw [List.append_nil, String.toList_inj] at isLonger
        exact absurd (isLonger ▸ isKeyword) isHead.notKeyword
    | cons c others =>
        have isPart := isHead.isClassName.isClassNameChar c (by simp [isLonger])
        rw [isClassNameChar, Bool.or_eq_true, decide_eq_true_eq] at isPart
        rcases isPart with isWord | rfl
        · exact isWord
        · exact absurd ⟨others, by simp [isLonger]⟩ notOpened
  · intro c others isLonger isNext
    rw [isNext] at ends
    have isPart := List.all_eq_true.mp (areWords word isKeyword) c (by simp [isLonger])
    exact absurd (isPart.symm.trans ends) Bool.noConfusion

theorem toList_of_opens (opens : Opens word name) :
    ∃ more, name.toList = word.toList ++ '/' :: more := by
  obtain ⟨more, isName⟩ := opens
  exact ⟨more, by simp [← isName]⟩

/-- A keyword that is the first part of a name is read there, up to the slash. -/
theorem keyword_opened (isName : IsClassName name) (isKeyword : word ∈ keywords)
    (opens : Opens word name) (oneLine : '\n' ∉ rest) :
    ∃ unread, keyword word (name.toList ++ rest) = .matched () unread ∧ Stuck unread := by
  have starts : ∀ word ∈ keywords, word.toList.head?.any isWordStart = true := by decide
  obtain ⟨more, isText⟩ := toList_of_opens opens
  refine ⟨'/' :: (more ++ rest), ?_, stuck_slash fun isIn => ?_⟩
  · rw [isText, List.append_assoc]
    exact keyword_append (starts word isKeyword) rfl
  · rcases List.mem_append.mp isIn with isPart | isLater
    · exact absurd (isName.isClassNameChar '\n' (by simp [isText, isPart])) (by decide)
    · exact oneLine isLater

/-- What a keyword has to be followed by is not found where it is the first part of a name. -/
theorem keyword_bind_unmatched {next : Unit → Reader α} (isHead : IsHead name)
    (isKeyword : word ∈ keywords) (stuckUnmatched : ∀ text, Stuck text → next () text = .unmatched)
    (ends : rest.head?.any isClassNameChar = false)
    (oneLine : '/' ∈ name.toList → '\n' ∉ rest) :
    (keyword word >>= next) (name.toList ++ rest) = .unmatched := by
  by_cases opens : Opens word name
  · obtain ⟨unread, isRead, stuck⟩ := keyword_opened isHead.isClassName isKeyword opens
        (oneLine opens.slash_mem)
    exact (bind_eq_of_matched isRead).trans (stuckUnmatched unread stuck)
  · exact bind_eq_of_unmatched (keyword_head isHead isKeyword opens ends)

/-- Where one of several keywords is read at a name, it is the first part of the name. -/
theorem oneOfKeywords_bind_unmatched {table : List (String × β)} {next : β → Reader α}
    (isHead : IsHead name) (areKeywords : ∀ entry ∈ table, entry.1 ∈ keywords)
    (stuckUnmatched : ∀ value text, Stuck text → next value text = .unmatched)
    (ends : rest.head?.any isClassNameChar = false)
    (oneLine : '/' ∈ name.toList → '\n' ∉ rest) :
    (oneOfKeywords table >>= next) (name.toList ++ rest) = .unmatched := by
  have isStuck : oneOfKeywords table (name.toList ++ rest) = .unmatched ∨
      ∃ value unread, oneOfKeywords table (name.toList ++ rest) = .matched value unread ∧
        Stuck unread := by
    induction table with
    | nil => exact .inl rfl
    | cons entry table ih =>
        obtain ⟨isKeyword, areKeywords⟩ := List.forall_mem_cons.mp areKeywords
        by_cases opens : Opens entry.1 name
        · obtain ⟨unread, isRead, stuck⟩ := keyword_opened isHead.isClassName isKeyword opens
            (oneLine opens.slash_mem)
          exact .inr ⟨entry.2, unread, orElse_eq_of_matched (bind_eq_of_matched isRead), stuck⟩
        · have isUnmatched := keyword_head isHead isKeyword opens ends
          have goesOn : oneOfKeywords (entry :: table) (name.toList ++ rest) =
              oneOfKeywords table (name.toList ++ rest) :=
            orElse_eq_of_unmatched (bind_eq_of_unmatched isUnmatched)
          rw [goesOn]
          exact ih areKeywords
  rcases isStuck with isUnmatched | ⟨value, unread, isRead, stuck⟩
  · exact bind_eq_of_unmatched isUnmatched
  · exact (bind_eq_of_matched isRead).trans (stuckUnmatched value unread stuck)

/-- A name stands where there is no mark. -/
theorem mark_name {mark : String} (isName : IsClassName name)
    (isMark : mark.toList.head?.any (fun c => !isWordStart c) = true) :
    Reader.mark mark (name.toList ++ rest) = .unmatched := by
  rw [Reader.mark, skipBlanks_of_startsWord isName.starts]
  obtain ⟨c, others, isText, starts, -⟩ := isName
  have differs : mark.toList.head?.any (· != c) = true := by
    cases isGiven : mark.toList with
    | nil =>
        rw [isGiven] at isMark
        cases isMark
    | cons d given =>
        refine bne_iff_ne.mpr ?_
        rintro rfl
        rw [isGiven] at isMark
        simp [starts] at isMark
  rw [isText, List.cons_append, dropGiven?_of_head differs]

theorem not_isDigit_of_isWordStart {c : Char} (starts : isWordStart c = true) :
    c.isDigit ≠ true := by
  intro isDigit
  have isSmall : c.val ≤ '9'.val := of_decide_eq_true (Bool.and_eq_true_iff.mp isDigit).2
  simp only [isWordStart, Bool.or_eq_true, decide_eq_true_eq] at starts
  rcases starts with (isLetter | rfl) | rfl
  · rcases Bool.or_eq_true_iff.mp isLetter with isUpper | isLower
    · exact absurd (UInt32.le_trans (of_decide_eq_true isUpper).1 isSmall) (by decide)
    · have isLarge : 'a'.val ≤ c.val := of_decide_eq_true (Bool.and_eq_true_iff.mp isLower).1
      exact absurd (UInt32.le_trans isLarge isSmall) (by decide)
  · exact absurd isDigit (by decide)
  · exact absurd isDigit (by decide)

/-- A name stands where there is no number. -/
theorem number_name (isName : IsClassName name) : number (name.toList ++ rest) = .unmatched := by
  obtain ⟨c, others, isText, starts, areOthers⟩ := isName
  have isMet : skipBlanks false (name.toList ++ rest) = c :: (others ++ rest) := by
    rw [skipBlanks_of_startsWord (IsWordOf.starts ⟨c, others, isText, starts, areOthers⟩), isText,
      List.cons_append]
  have notMinus : c ≠ '-' := by
    rintro rfl
    cases starts
  have notDigit : c.isDigit = false := Bool.eq_false_iff.mpr (not_isDigit_of_isWordStart starts)
  simp [number, isMet, notMinus, notDigit, numberOf?]

/-- At a name, there is no call. -/
theorem call_head (isHead : IsHead name) (ends : rest.head?.any isClassNameChar = false)
    (oneLine : '/' ∈ name.toList → '\n' ∉ rest) : call (name.toList ++ rest) = .unmatched := by
  refine (orElse_eq_of_unmatched (keyword_bind_unmatched isHead (by decide)
    (fun text stuck => ?_) ends oneLine)).trans ?_
  · exact bind_eq_of_unmatched (bind_eq_of_unmatched (stuck.mark_unmatched (by decide)))
  · exact oneOfKeywords_bind_unmatched isHead (by decide)
      (fun _ text stuck => bind_eq_of_unmatched stuck.wordOf_unmatched) ends oneLine

/-- At a name, an action is a store or an assignment. -/
theorem action_head (isHead : IsHead name) (notNop : ¬ Opens "nop" name)
    (notReturn : ¬ Opens "return" name) (ends : rest.head?.any isClassNameChar = false)
    (oneLine : '/' ∈ name.toList → '\n' ∉ rest) : action (name.toList ++ rest) =
      firstOf [fieldStore, elementStore, assignment] (name.toList ++ rest) := by
  have noWord {continues : Char → Bool} (text : List Char) (stuck : Stuck text) :
      wordOf continues text = .unmatched := stuck.wordOf_unmatched
  have notJump {next : Unit → Reader Action} {word : String} (isKeyword : word ∈ keywords)
      (stuckUnmatched : ∀ text, Stuck text → next () text = .unmatched) :
      (keyword word >>= next) (name.toList ++ rest) = .unmatched :=
    keyword_bind_unmatched isHead isKeyword stuckUnmatched ends oneLine
  refine (orElse_eq_of_unmatched (bind_eq_of_unmatched
    (keyword_head isHead (by decide) notNop ends))).trans ?_
  refine (orElse_eq_of_unmatched (bind_eq_of_unmatched (bind_eq_of_unmatched
    (keyword_head isHead (by decide) notReturn ends)))).trans ?_
  refine (orElse_eq_of_unmatched (bind_eq_of_unmatched
    (keyword_bind_unmatched isHead (by decide) noWord ends oneLine))).trans ?_
  refine (orElse_eq_of_unmatched (notJump (by decide)
    fun text stuck => bind_eq_of_unmatched (noWord text stuck))).trans ?_
  refine (orElse_eq_of_unmatched (notJump (by decide)
    fun text stuck => bind_eq_of_unmatched (noWord text stuck))).trans ?_
  exact orElse_eq_of_unmatched (bind_eq_of_unmatched (call_head isHead ends oneLine))

/-- At a name, an operand is the null literal, a field, an element, a binary expression or a
copy. -/
theorem operand_head (isHead : IsHead name) (ends : rest.head?.any isClassNameChar = false)
    (oneLine : '/' ∈ name.toList → '\n' ∉ rest) :
    operand (name.toList ++ rest) =
      firstOf [(fun _ => Operand.literal .null) <$> keyword "null", Operand.field <$> fieldPath,
        (fun access => Operand.element access.1 access.2) <$> element, binaryOperand,
        Operand.copy <$> identifier] (name.toList ++ rest) := by
  refine (orElse_eq_of_unmatched (bind_eq_of_unmatched (keyword_bind_unmatched isHead (by decide)
    (fun text stuck => stuck.type_unmatched) ends oneLine))).trans ?_
  refine (orElse_eq_of_unmatched (bind_eq_of_unmatched (call_head isHead ends oneLine))).trans ?_
  refine (orElse_eq_of_unmatched (bind_eq_of_unmatched (bind_eq_of_unmatched
    (bind_eq_of_unmatched (mark_name isHead.isClassName (by decide)))))).trans ?_
  exact orElse_eq_of_unmatched (bind_eq_of_unmatched (number_name isHead.isClassName))

/-- Where the null literal is the first part of a name, an operand ends there. -/
theorem operand_opened (isHead : IsHead name) (opens : Opens "null" name)
    (ends : rest.head?.any isClassNameChar = false) (oneLine : '\n' ∉ rest) :
    ∃ unread, operand (name.toList ++ rest) = .matched (.literal .null) unread ∧ Stuck unread := by
  obtain ⟨unread, isRead, stuck⟩ := keyword_opened isHead.isClassName (by decide) opens oneLine
  refine ⟨unread, (operand_head isHead ends fun _ => oneLine).trans ?_, stuck⟩
  exact orElse_eq_of_matched (bind_eq_of_matched isRead)

/-- Where a statement of one word is the first part of a name, an action ends there. -/
theorem action_opened (isHead : IsHead name) (opens : Opens "nop" name ∨ Opens "return" name)
    (ends : rest.head?.any isClassNameChar = false) (oneLine : '\n' ∉ rest) :
    ∃ what unread, action (name.toList ++ rest) = .matched what unread ∧ Stuck unread := by
  by_cases isNop : Opens "nop" name
  · obtain ⟨unread, isRead, stuck⟩ := keyword_opened isHead.isClassName (by decide) isNop oneLine
    exact ⟨.nop, unread, orElse_eq_of_matched (bind_eq_of_matched isRead), stuck⟩
  · obtain ⟨unread, isRead, stuck⟩ := keyword_opened isHead.isClassName (by decide)
      (opens.resolve_left isNop) oneLine
    have noValue : optional identifier unread = .matched none unread :=
      orElse_eq_of_unmatched (bind_eq_of_unmatched stuck.wordOf_unmatched)
    refine ⟨.ret none, unread, ?_, stuck⟩
    refine (orElse_eq_of_unmatched (bind_eq_of_unmatched
      (keyword_head isHead (by decide) isNop ends))).trans ?_
    apply orElse_eq_of_matched
    exact bind_eq_of_matched ((bind_eq_of_matched isRead).trans noValue)

/-- The name of a class is a word, or a word up to a slash. -/
theorem IsClassName.cases (isName : IsClassName name) : IsIdentifier name ∨
    ∃ front more, IsIdentifier front ∧ name.toList = front.toList ++ '/' :: more := by
  obtain ⟨c, others, isText, starts, areOthers⟩ := isName
  have isSplit := List.takeWhile_append_dropWhile (p := isWordChar) (l := others)
  cases isRest : others.dropWhile isWordChar with
  | nil =>
      rw [isRest, List.append_nil] at isSplit
      refine .inl ⟨c, others, isText, starts, fun d isIn => ?_⟩
      rw [← isSplit] at isIn
      exact List.mem_takeWhile_imp isIn
  | cons d more =>
      refine .inr ⟨String.ofList (c :: others.takeWhile isWordChar), more, ?_, ?_⟩
      · refine ⟨c, others.takeWhile isWordChar, by simp, starts, fun d isIn => ?_⟩
        exact List.mem_takeWhile_imp isIn
      · have isSlash : d = '/' := by
          have isPart := areOthers d (by rw [← isSplit, isRest]; simp)
          have isEnd := List.head?_dropWhile_not isWordChar others
          rw [isRest] at isEnd
          have notWord : isWordChar d = false := isEnd
          simpa [isClassNameChar, notWord] using isPart
        rw [isText, String.toList_ofList, List.cons_append, ← isSlash, ← isRest, isSplit]

theorem mark_cases (mark : String) (text : List Char) : Reader.mark mark text = .unmatched ∨
    ∃ rest, Reader.mark mark text = .matched () rest := by
  rw [Reader.mark]
  cases dropGiven? mark.toList (skipBlanks false text) with
  | none => exact .inl rfl
  | some rest => exact .inr ⟨rest, rfl⟩

/-- No label is read at a name that no colon follows, nor two of them. -/
theorem label_name (isName : IsClassName name) (ends : rest.head?.any isWordChar = false)
    (oneLine : '/' ∈ name.toList → '\n' ∉ rest)
    (notLabel : ∀ unread, mark ":" rest = .matched () unread → unread.head? = some ':') :
    label (name.toList ++ rest) = .unmatched := by
  rcases IsClassName.cases isName with isIdentifier | ⟨front, more, isFront, isText⟩
  · refine (bind_eq_of_matched (wordOf_append isIdentifier ends)).trans ?_
    rcases mark_cases ":" rest with isUnmatched | ⟨unread, isMark⟩
    · exact bind_eq_of_unmatched isUnmatched
    · refine (bind_eq_of_matched isMark).trans ?_
      simp only [notLabel unread isMark, if_true]
  · have stuck : Stuck ('/' :: (more ++ rest)) := by
      refine stuck_slash fun isIn => ?_
      rcases List.mem_append.mp isIn with isPart | isLater
      · exact absurd (isName.isClassNameChar '\n' (by simp [isText, isPart])) (by decide)
      · exact oneLine (by simp [isText]) isLater
    rw [isText, List.append_assoc]
    refine (bind_eq_of_matched (wordOf_append isFront rfl)).trans ?_
    exact bind_eq_of_unmatched (stuck.mark_unmatched (by decide))

/-- A line without a label is its action, up to the semicolon. -/
theorem line_append {what : Action} (notLabel : label text = .unmatched)
    (isAction : action text = .matched what (';' :: rest)) :
    line text = .matched ⟨none, what⟩ rest := by
  have noLabel : optional label text = .matched none text :=
    orElse_eq_of_unmatched (bind_eq_of_unmatched notLabel)
  refine (bind_eq_of_matched noLabel).trans ?_
  refine (bind_eq_of_matched isAction).trans ?_
  exact bind_eq_of_matched (show mark ";" (';' :: rest) = .matched () rest from rfl)

/-- There is no line where the action ends before a slash. -/
theorem line_stuck {what : Action} (notLabel : label text = .unmatched)
    (isAction : action text = .matched what rest) (stuck : Stuck rest) :
    line text = .unmatched := by
  have noLabel : optional label text = .matched none text :=
    orElse_eq_of_unmatched (bind_eq_of_unmatched notLabel)
  refine (bind_eq_of_matched noLabel).trans ?_
  refine (bind_eq_of_matched isAction).trans ?_
  exact bind_eq_of_unmatched (stuck.mark_unmatched (by decide))

end Heads

end Reader

end TacAnalysis.Source
