/-
# Two layouts of one place

Two layouts of one place of a text are read alike: every reader matches on both texts, with
the same value, or on none, and what is left is laid out in two ways at the same place, or
is the same. This holds of the pieces that a text is made of, the names of classes as long
as no comment stands right after a word, and is kept by all ways of putting readers
together, so that it holds of the whole grammar.
-/

import TacAnalysis.Proofs.Source.Separation
import TacAnalysis.Source.Grammar

namespace TacAnalysis.Source

/-- A layout that separates what stands before it from what stands after it. -/
structure Separates (layout : List Char) : Prop where
  isLayout : Layout layout
  notEmpty : layout ≠ []

/-- A place of a text with two layouts. -/
structure Gap where
  before : List Char
  first : List Char
  second : List Char
  after : List Char
  notOpen : ¬EndsInComment before
  noSlash : before.getLast? ≠ some '/'
  firstSeparates : Separates first
  secondSeparates : Separates second

/-- Neither layout has a comment right after a word. It would be taken for a part of the word
where the name of a class is read, and only there. -/
structure Gap.Apart (gap : Gap) : Prop where
  first : EndsWithWord gap.before → ∀ c ∈ gap.first.head?, isBlank c = true
  second : EndsWithWord gap.before → ∀ c ∈ gap.second.head?, isBlank c = true

namespace Reader

variable {α : Type} {reader : Reader α}

/-- A reader takes at least one character when it matches. -/
def Advances (reader : Reader α) : Prop :=
  ∀ {text value rest}, reader text = .matched value rest → rest.length < text.length

/-- A reader that takes at least one character each time, and finds nothing in an empty text,
is never used more often than there are characters. -/
theorem manyUpTo_eq_many (advances : reader.Advances) (atEnd : reader [] = .unmatched)
    {limit : Nat} {text : List Char} (fits : text.length ≤ limit) :
    manyUpTo reader limit text = many reader text := by
  have oneMore (limit : Nat) : ∀ text : List Char, text.length ≤ limit →
      manyUpTo reader (limit + 1) text = manyUpTo reader limit text := by
    induction limit with
    | zero =>
        intro text isShort
        rw [List.eq_nil_of_length_eq_zero (Nat.le_zero.mp isShort)]
        simp only [manyUpTo, atEnd]
        rfl
    | succ limit ih =>
        intro text isShort
        unfold manyUpTo
        cases isRead : reader text with
        | matched value rest =>
            have isShorter := advances isRead
            simp only [ih rest (by omega)]
        | unmatched => rfl
        | refused error => rfl
  induction limit, fits using Nat.le_induction with
  | base => rfl
  | succ limit fits ih => rw [oneMore limit text fits, ih]

end Reader

namespace Gap

variable (gap : Gap)

/-- Two texts are the same, or the ends of the two texts with the gap that start before
it. -/
def Alike (text other : List Char) : Prop :=
  text = other ∨ ∃ front, front <:+ gap.before ∧
    text = front ++ (gap.first ++ gap.after) ∧ other = front ++ (gap.second ++ gap.after)

/-- The outcomes of reading two texts have the same value and leave texts that are alike,
or are the same failure. -/
inductive Agree {α : Type} : Outcome α → Outcome α → Prop
  | matched (value : α) {rest other : List Char} : gap.Alike rest other →
      Agree (.matched value rest) (.matched value other)
  | unmatched : Agree .unmatched .unmatched
  | refused (error : ProgramError) : Agree (.refused error) (.refused error)

/-- A reader never gives back more than it is given, and reads alike what is alike. -/
structure Respects {α : Type} (reader : Reader α) : Prop where
  shrinks {text : List Char} {value : α} {rest : List Char} :
    reader text = .matched value rest → rest.length ≤ text.length
  agree {text other : List Char} : gap.Alike text other → gap.Agree (reader text) (reader other)

/-- A reader takes something when it matches, and reads alike what is alike. -/
structure Consumes {α : Type} (reader : Reader α) : Prop extends gap.Respects reader where
  advances : reader.Advances

variable {gap}

section Pieces

variable {text other front : List Char}

theorem alike_refl : gap.Alike text text := .inl rfl

/-- Neither layout starts with a character that could go on with the word, mark or number
at the end of what comes before, if neither white space nor a slash does. -/
theorem exists_starts (gap : Gap) (ends : Char → Prop) (blanks : ∀ c, isBlank c = true → ends c)
    (slash : ends '/') :
    (∃ c rest, gap.first = c :: rest ∧ ends c) ∧ ∃ c rest, gap.second = c :: rest ∧ ends c := by
  have starts {layout : List Char} (separates : Separates layout) :
      ∃ c rest, layout = c :: rest ∧ ends c := by
    obtain ⟨c, rest, rfl⟩ := List.exists_cons_of_ne_nil separates.notEmpty
    refine ⟨c, rest, rfl, ?_⟩
    rcases separates.isLayout.head_cases with isBlank | rfl
    · exact blanks c isBlank
    · exact slash
  exact ⟨starts gap.firstSeparates, starts gap.secondSeparates⟩

/-- Both layouts start with white space after a word. -/
theorem Apart.exists_starts (apart : gap.Apart) (isWord : EndsWithWord gap.before)
    (ends : Char → Prop) (blanks : ∀ c, isBlank c = true → ends c) :
    (∃ c rest, gap.first = c :: rest ∧ ends c) ∧ ∃ c rest, gap.second = c :: rest ∧ ends c := by
  have starts {layout : List Char} (separates : Separates layout)
      (areBlank : ∀ c ∈ layout.head?, isBlank c = true) :
      ∃ c rest, layout = c :: rest ∧ ends c := by
    obtain ⟨c, rest, rfl⟩ := List.exists_cons_of_ne_nil separates.notEmpty
    exact ⟨c, rest, rfl, blanks c (areBlank c rfl)⟩
  exact ⟨starts gap.firstSeparates (apart.first isWord),
    starts gap.secondSeparates (apart.second isWord)⟩

/-- Once blanks are skipped, texts that are alike are the same, or both start before the
gap. -/
theorem alike_skipBlanks (alike : gap.Alike text other) :
    skipBlanks false text = skipBlanks false other ∨ ∃ c rest, (c :: rest) <:+ gap.before ∧
      skipBlanks false text = c :: rest ++ (gap.first ++ gap.after) ∧
      skipBlanks false other = c :: rest ++ (gap.second ++ gap.after) := by
  rcases alike with rfl | ⟨front, isFront, rfl, rfl⟩
  · exact .inl rfl
  · have notOpen : ¬EndsInComment front := fun isIn =>
      gap.notOpen (endsInComment_of_suffix isFront isIn)
    have noSlash : front.getLast? ≠ some '/' := by
      intro isSlash
      obtain ⟨start, isBefore⟩ := isFront
      exact gap.noSlash (by rw [← isBefore, List.getLast?_append, isSlash, Option.some_or])
    rcases skipBlanks_append false notOpen noSlash nofun with
      ⟨c, rest, isSuffix, ends⟩ | goesOn
    · exact .inr ⟨c, rest, isSuffix.trans isFront, ends _, ends _⟩
    · left
      rw [goesOn, goesOn, gap.firstSeparates.isLayout.skipBlanks,
        gap.secondSeparates.isLayout.skipBlanks]

/-- What is taken off both texts, or off none. -/
theorem alike_dropGiven? {given : List Char}
    (areVisible : ∀ c ∈ given, isBlank c = false ∧ c ≠ '/') (isFront : front <:+ gap.before) :
    (dropGiven? given (front ++ (gap.first ++ gap.after)) = none ∧
      dropGiven? given (front ++ (gap.second ++ gap.after)) = none) ∨
    ∃ rest, rest <:+ gap.before ∧
      dropGiven? given (front ++ (gap.first ++ gap.after)) =
        some (rest ++ (gap.first ++ gap.after)) ∧
      dropGiven? given (front ++ (gap.second ++ gap.after)) =
        some (rest ++ (gap.second ++ gap.after)) := by
  induction given generalizing front with
  | nil => exact .inr ⟨front, isFront, rfl, rfl⟩
  | cons c given ih =>
      obtain ⟨⟨notBlank, notSlash⟩, areOthers⟩ := List.forall_mem_cons.mp areVisible
      cases front with
      | nil =>
          have differs (d : Char) (isBlank : isBlank d = true) : c ≠ d := by
            rintro rfl
            exact Bool.false_ne_true (notBlank.symm.trans isBlank)
          obtain ⟨⟨first, _, isFirst, notFirst⟩, ⟨second, _, isSecond, notSecond⟩⟩ :=
            gap.exists_starts (c ≠ ·) differs notSlash
          left
          simp [isFirst, isSecond, dropGiven?, notFirst, notSecond]
      | cons d front =>
          simp only [List.cons_append, dropGiven?]
          by_cases isSame : c = d
          · simp only [isSame, if_true]
            exact ih areOthers ((List.suffix_cons d front).trans isFront)
          · simp [isSame]

/-- A run of characters ends at the same place in both texts. -/
theorem alike_takeWhile {p : Char → Bool} (isFront : front <:+ gap.before)
    (ends : (∀ c ∈ front, p c = true) → (∃ c rest, gap.first = c :: rest ∧ p c = false) ∧
      ∃ c rest, gap.second = c :: rest ∧ p c = false) :
    (front ++ (gap.first ++ gap.after)).takeWhile p =
        (front ++ (gap.second ++ gap.after)).takeWhile p ∧
      gap.Alike ((front ++ (gap.first ++ gap.after)).dropWhile p)
        ((front ++ (gap.second ++ gap.after)).dropWhile p) := by
  induction front with
  | nil =>
      obtain ⟨⟨first, _, isFirst, notFirst⟩, ⟨second, _, isSecond, notSecond⟩⟩ :=
        ends (List.forall_mem_nil _)
      refine ⟨by simp [isFirst, isSecond, notFirst, notSecond], .inr ⟨[], isFront, ?_⟩⟩
      simp [isFirst, isSecond, notFirst, notSecond]
  | cons c front ih =>
      simp only [List.cons_append, List.takeWhile_cons, List.dropWhile_cons]
      cases goesOn : p c with
      | false => exact ⟨rfl, .inr ⟨c :: front, isFront, rfl, rfl⟩⟩
      | true =>
          obtain ⟨sameTaken, alike⟩ := ih ((List.suffix_cons c front).trans isFront)
            fun areGood => ends (List.forall_mem_cons.mpr ⟨goesOn, areGood⟩)
          exact ⟨congrArg (c :: ·) sameTaken, alike⟩

end Pieces

section Combinators

variable {α β : Type} {reader : Reader α}

theorem agree_refl {outcome : Outcome α} : gap.Agree outcome outcome := by
  cases outcome with
  | matched value rest => exact .matched value alike_refl
  | unmatched => exact .unmatched
  | refused error => exact .refused error

theorem respects_pure (value : α) : gap.Respects (pure value : Reader α) where
  shrinks isMatched := by
    cases isMatched
    exact Nat.le_refl _
  agree alike := .matched value alike

theorem respects_fail : gap.Respects (Reader.fail : Reader α) where
  shrinks isMatched := nomatch isMatched
  agree _ := .unmatched

theorem respects_refuse (error : ProgramError) :
    gap.Respects (fun _ => .refused error : Reader α) where
  shrinks isMatched := nomatch isMatched
  agree _ := .refused error

theorem Respects.bind {first : Reader β} {next : β → Reader α} (respects : gap.Respects first)
    (nextRespects : ∀ value, gap.Respects (next value)) : gap.Respects (first >>= next) where
  shrinks {text value rest} isMatched := by
    change Reader.bind first next text = _ at isMatched
    unfold Reader.bind at isMatched
    split at isMatched
    case h_1 read between isFirst =>
        exact ((nextRespects read).shrinks isMatched).trans (respects.shrinks isFirst)
    case h_2 => cases isMatched
    case h_3 => cases isMatched
  agree {text other} alike := by
    show gap.Agree (Reader.bind first next text) (Reader.bind first next other)
    have agree := respects.agree alike
    unfold Reader.bind
    generalize first text = outcome, first other = otherOutcome at agree
    cases agree with
    | matched value alike => exact (nextRespects value).agree alike
    | unmatched => exact .unmatched
    | refused error => exact .refused error

theorem Consumes.bind {first : Reader β} {next : β → Reader α} (consumes : gap.Consumes first)
    (nextRespects : ∀ value, gap.Respects (next value)) : gap.Consumes (first >>= next) where
  toRespects := consumes.toRespects.bind nextRespects
  advances {text value rest} isMatched := by
    change Reader.bind first next text = _ at isMatched
    unfold Reader.bind at isMatched
    split at isMatched
    case h_1 read between isFirst =>
        exact ((nextRespects read).shrinks isMatched).trans_lt (consumes.advances isFirst)
    case h_2 => cases isMatched
    case h_3 => cases isMatched

theorem Respects.bindConsumes {first : Reader β} {next : β → Reader α}
    (respects : gap.Respects first) (nextConsumes : ∀ value, gap.Consumes (next value)) :
    gap.Consumes (first >>= next) where
  toRespects := respects.bind fun value => (nextConsumes value).toRespects
  advances {text value rest} isMatched := by
    change Reader.bind first next text = _ at isMatched
    unfold Reader.bind at isMatched
    split at isMatched
    case h_1 read between isFirst =>
        exact ((nextConsumes read).advances isMatched).trans_le (respects.shrinks isFirst)
    case h_2 => cases isMatched
    case h_3 => cases isMatched

theorem Consumes.map {first : Reader β} (consumes : gap.Consumes first) (f : β → α) :
    gap.Consumes (f <$> first) := consumes.bind fun value => respects_pure (f value)

theorem Respects.map {first : Reader β} (respects : gap.Respects first) (f : β → α) :
    gap.Respects (f <$> first) := respects.bind fun value => respects_pure (f value)

theorem Respects.orElse {second : Reader α} (respects : gap.Respects reader)
    (secondRespects : gap.Respects second) : gap.Respects (reader <|> second) where
  shrinks {text value rest} isMatched := by
    change Reader.orElse reader (fun _ => second) text = _ at isMatched
    unfold Reader.orElse at isMatched
    split at isMatched
    case h_1 => exact secondRespects.shrinks isMatched
    case h_2 => exact respects.shrinks isMatched
  agree {text other} alike := by
    show gap.Agree (Reader.orElse reader (fun _ => second) text)
      (Reader.orElse reader (fun _ => second) other)
    have agree := respects.agree alike
    unfold Reader.orElse
    generalize reader text = outcome, reader other = otherOutcome at agree
    cases agree with
    | matched value alike => exact .matched value alike
    | unmatched => exact secondRespects.agree alike
    | refused error => exact .refused error

theorem Consumes.orElse {second : Reader α} (consumes : gap.Consumes reader)
    (secondConsumes : gap.Consumes second) : gap.Consumes (reader <|> second) where
  toRespects := consumes.toRespects.orElse secondConsumes.toRespects
  advances {text value rest} isMatched := by
    change Reader.orElse reader (fun _ => second) text = _ at isMatched
    unfold Reader.orElse at isMatched
    split at isMatched
    case h_1 => exact secondConsumes.advances isMatched
    case h_2 => exact consumes.advances isMatched

theorem consumes_firstOf {readers : List (Reader α)}
    (consume : ∀ reader ∈ readers, gap.Consumes reader) :
    gap.Consumes (Reader.firstOf readers) := by
  induction readers with
  | nil => exact ⟨respects_fail, nofun⟩
  | cons first readers ih =>
      obtain ⟨firstConsumes, othersConsume⟩ := List.forall_mem_cons.mp consume
      exact firstConsumes.orElse (ih othersConsume)

theorem Respects.optional (respects : gap.Respects reader) : gap.Respects reader.optional :=
  (respects.map some).orElse (respects_pure none)

theorem Consumes.many (consumes : gap.Consumes reader) (atEnd : reader [] = .unmatched) :
    gap.Respects reader.many := by
  have upTo (limit : Nat) : gap.Respects (Reader.manyUpTo reader limit) := by
    induction limit with
    | zero => exact respects_pure []
    | succ limit ih =>
        constructor
        case shrinks =>
            intro text values rest isMatched
            unfold Reader.manyUpTo at isMatched
            split at isMatched
            case h_1 value between isFirst =>
                split at isMatched
                case h_1 others _ areOthers =>
                    cases isMatched
                    exact (ih.shrinks areOthers).trans (consumes.shrinks isFirst)
                case h_2 => cases isMatched
                case h_3 => cases isMatched
            case h_2 =>
                cases isMatched
                exact Nat.le_refl _
            case h_3 => cases isMatched
        case agree =>
            intro text other alike
            have agree := consumes.agree alike
            unfold Reader.manyUpTo
            generalize reader text = outcome, reader other = otherOutcome at agree
            cases agree with
            | @matched value rest otherRest alike =>
                have agree := ih.agree alike
                dsimp only
                generalize Reader.manyUpTo reader limit rest = outcome,
                  Reader.manyUpTo reader limit otherRest = otherOutcome at agree
                cases agree with
                | matched values alike => exact .matched (value :: values) alike
                | unmatched => exact .unmatched
                | refused error => exact .refused error
            | unmatched => exact .matched [] alike
            | refused error => exact .refused error
  constructor
  case shrinks => exact fun isMatched => (upTo _).shrinks isMatched
  case agree =>
    intro text other alike
    rw [← Reader.manyUpTo_eq_many consumes.advances atEnd (Nat.le_max_left _ other.length),
      ← Reader.manyUpTo_eq_many consumes.advances atEnd (Nat.le_max_right text.length _)]
    exact (upTo _).agree alike

theorem Consumes.separated {separator : Reader β} (consumes : gap.Consumes reader)
    (separatorConsumes : gap.Consumes separator) (atEnd : separator [] = .unmatched) :
    gap.Consumes (Reader.separated separator reader) := by
  refine consumes.bind fun first => Respects.bind ?_ fun others => respects_pure _
  refine (separatorConsumes.bind fun _ => consumes.toRespects).many ?_
  show Reader.bind separator (fun _ => reader) [] = .unmatched
  rw [Reader.bind, atEnd]

end Combinators

section Words

variable {text other front : List Char} {α : Type}

theorem length_skipBlanks_le {inComment : Bool} :
    (skipBlanks inComment text).length ≤ text.length := by
  induction text generalizing inComment with
  | nil => exact Nat.le_refl _
  | cons c text ih =>
      unfold skipBlanks
      split_ifs
      · exact ih.trans (Nat.le_succ _)
      · exact ih.trans (Nat.le_succ _)
      · exact ih.trans (Nat.le_succ _)
      · exact Nat.le_refl _

theorem length_dropGiven? {given rest : List Char} (isRest : dropGiven? given text = some rest) :
    rest.length + given.length = text.length := by
  induction given generalizing text with
  | nil =>
      cases isRest
      rfl
  | cons c given ih =>
      cases text with
      | nil => cases isRest
      | cons d text =>
          rw [dropGiven?] at isRest
          split at isRest
          case isTrue => rw [List.length_cons, List.length_cons, ← ih isRest, Nat.add_assoc]
          case isFalse => cases isRest

/-- A mark or a keyword: a layout cannot stand within it, nor begin within it. -/
def IsMark (text : String) : Prop :=
  text.toList ≠ [] ∧ ∀ c ∈ text.toList.tail, isBlank c = false ∧ c ≠ '/'

instance : DecidablePred IsMark := fun text =>
  decidable_of_iff (text.toList ≠ [] ∧
    text.toList.tail.all (fun c => !isBlank c && c != '/') = true) (by simp [IsMark])

/-- A mark stands at the front of both texts, or of none. -/
theorem alike_dropMark {mark : String} (isMark : IsMark mark) (alike : gap.Alike text other) :
    (dropGiven? mark.toList (skipBlanks false text) =
      dropGiven? mark.toList (skipBlanks false other)) ∨ ∃ rest, rest <:+ gap.before ∧
      dropGiven? mark.toList (skipBlanks false text) =
        some (rest ++ (gap.first ++ gap.after)) ∧
      dropGiven? mark.toList (skipBlanks false other) =
        some (rest ++ (gap.second ++ gap.after)) := by
  rcases alike_skipBlanks alike with isSame | ⟨d, rest, isFront, isText, isOther⟩
  · exact .inl (by rw [isSame])
  · rw [isText, isOther]
    obtain ⟨notEmpty, areVisible⟩ := isMark
    obtain ⟨c, given, isGiven⟩ := List.exists_cons_of_ne_nil notEmpty
    rw [isGiven] at areVisible ⊢
    simp only [List.cons_append, dropGiven?]
    by_cases isFirst : c = d
    · simp only [isFirst, if_true]
      rcases alike_dropGiven? areVisible ((List.suffix_cons d rest).trans isFront) with
        ⟨isNone, isNoneToo⟩ | areSome
      · exact .inl (isNone.trans isNoneToo.symm)
      · exact .inr areSome
    · simp [isFirst]

theorem length_dropMark {mark : String} {rest : List Char} (isMark : IsMark mark)
    (isRest : dropGiven? mark.toList (skipBlanks false text) = some rest) :
    rest.length < text.length := by
  have isLength := length_dropGiven? isRest
  have isShort : (skipBlanks false text).length ≤ text.length := length_skipBlanks_le
  have isLong := List.length_pos_iff.mpr isMark.1
  omega

theorem consumes_mark {mark : String} (isMark : IsMark mark) :
    gap.Consumes (Reader.mark mark) := by
  have advances : (Reader.mark mark).Advances := by
    intro text value rest isMatched
    unfold Reader.mark at isMatched
    split at isMatched
    case h_1 rest isRest =>
        cases isMatched
        exact length_dropMark isMark isRest
    case h_2 => cases isMatched
  refine ⟨⟨fun isMatched => (advances isMatched).le, fun {text other} alike => ?_⟩, advances⟩
  unfold Reader.mark
  rcases alike_dropMark isMark alike with isSame | ⟨rest, isFront, isText, isOther⟩
  · rw [isSame]
    exact agree_refl
  · rw [isText, isOther]
    exact .matched () (.inr ⟨rest, isFront, rfl, rfl⟩)

theorem isWordChar_of_isBlank {c : Char} (isBlank : isBlank c = true) : isWordChar c = false := by
  simp only [Source.isBlank, Bool.or_eq_true, decide_eq_true_eq] at isBlank
  rcases isBlank with ((rfl | rfl) | rfl) | rfl <;> rfl

theorem consumes_keyword {word : String} (isMark : IsMark word) :
    gap.Consumes (Reader.keyword word) := by
  have advances : (Reader.keyword word).Advances := by
    intro text value rest isMatched
    unfold Reader.keyword at isMatched
    split at isMatched
    case h_1 rest isRest =>
        split at isMatched
        case isTrue => cases isMatched
        case isFalse =>
            cases isMatched
            exact length_dropMark isMark isRest
    case h_2 => cases isMatched
  refine ⟨⟨fun isMatched => (advances isMatched).le, fun {text other} alike => ?_⟩, advances⟩
  unfold Reader.keyword
  rcases alike_dropMark isMark alike with isSame | ⟨rest, isFront, isText, isOther⟩
  · rw [isSame]
    exact agree_refl
  · obtain ⟨⟨first, _, isFirst, notFirst⟩, ⟨second, _, isSecond, notSecond⟩⟩ :=
      gap.exists_starts (isWordChar · = false) (fun _ => isWordChar_of_isBlank) rfl
    have sameEnd : (rest ++ (gap.first ++ gap.after)).head?.any isWordChar =
        (rest ++ (gap.second ++ gap.after)).head?.any isWordChar := by
      cases rest with
      | nil => simp [isFirst, isSecond, notFirst, notSecond]
      | cons => rfl
    rw [isText, isOther]
    simp only [sameEnd]
    split
    · exact .unmatched
    · exact .matched () (.inr ⟨rest, isFront, rfl, rfl⟩)

/-- A word is read alike if neither layout goes on with a word that ends before the gap. -/
theorem consumes_wordOf {continues : Char → Bool}
    (ends : ∀ c rest, (c :: rest) <:+ gap.before → isWordStart c = true →
      (∀ d ∈ rest, continues d = true) →
        (∃ d rest, gap.first = d :: rest ∧ continues d = false) ∧
          ∃ d rest, gap.second = d :: rest ∧ continues d = false) :
    gap.Consumes (Reader.wordOf continues) := by
  have advances : (Reader.wordOf continues).Advances := by
    intro text value rest isMatched
    have isShort : (skipBlanks false text).length ≤ text.length := length_skipBlanks_le
    unfold Reader.wordOf at isMatched
    split at isMatched
    case h_1 => cases isMatched
    case h_2 c others isText =>
        split at isMatched
        case isTrue =>
            cases isMatched
            rw [isText, List.length_cons] at isShort
            exact (List.dropWhile_sublist _).length_le.trans_lt isShort
        case isFalse => cases isMatched
  refine ⟨⟨fun isMatched => (advances isMatched).le, fun {text other} alike => ?_⟩, advances⟩
  unfold Reader.wordOf
  rcases alike_skipBlanks alike with isSame | ⟨c, rest, isFront, isText, isOther⟩
  · rw [isSame]
    exact agree_refl
  · rw [isText, isOther]
    simp only [List.cons_append]
    split
    case isTrue isStart =>
        obtain ⟨sameWord, alikeRest⟩ := gap.alike_takeWhile (p := continues)
          ((List.suffix_cons c rest).trans isFront) (ends c rest isFront isStart)
        rw [sameWord]
        exact .matched _ alikeRest
    case isFalse => exact .unmatched

theorem consumes_identifier : gap.Consumes Reader.identifier :=
  consumes_wordOf fun _ _ _ _ _ =>
    gap.exists_starts (isWordChar · = false) (fun _ => isWordChar_of_isBlank) rfl

/-- The name of a class ends before the gap, as long as no comment starts right after it. -/
theorem consumes_className (apart : gap.Apart) : gap.Consumes Reader.className := by
  refine consumes_wordOf fun c rest isFront isStart areWord => ?_
  refine apart.exists_starts (endsWithWord_of_suffix isFront isStart areWord)
    (isClassNameChar · = false) fun d isBlank => ?_
  rw [isClassNameChar, isWordChar_of_isBlank isBlank, Bool.false_or, decide_eq_false_iff_not]
  rintro rfl
  cases isBlank

theorem isDigit_of_isBlank {c : Char} (isBlank : isBlank c = true) : c.isDigit = false := by
  simp only [Source.isBlank, Bool.or_eq_true, decide_eq_true_eq] at isBlank
  rcases isBlank with ((rfl | rfl) | rfl) | rfl <;> rfl

theorem advances_number : Reader.number.Advances := by
  intro text value rest isMatched
  unfold Reader.number at isMatched
  extract_lets blank negative unsigned at isMatched
  have isShort : unsigned.length ≤ text.length := by
    have isShort : blank.length ≤ text.length := length_skipBlanks_le
    unfold unsigned
    split
    · exact (List.tail_sublist blank).length_le.trans isShort
    · exact isShort
  split at isMatched
  case h_1 value isNumber =>
      cases isMatched
      have areDigits : unsigned.takeWhile Char.isDigit ≠ [] := by
        intro isEmpty
        rw [isEmpty] at isNumber
        cases isNumber
      have isLong := List.length_pos_iff.mpr areDigits
      have isSplit := congrArg List.length
        (List.takeWhile_append_dropWhile (p := Char.isDigit) (l := unsigned))
      rw [List.length_append] at isSplit
      omega
  case h_2 => cases isMatched

theorem consumes_number : gap.Consumes Reader.number := by
  refine ⟨⟨fun isMatched => (advances_number isMatched).le, fun {text other} alike => ?_⟩,
    advances_number⟩
  -- The digits end at the same place, whether a sign comes before them or not.
  have digits {front : List Char} (isFront : front <:+ gap.before) :=
    gap.alike_takeWhile (p := Char.isDigit) isFront fun _ =>
      gap.exists_starts (Char.isDigit · = false) (fun _ => isDigit_of_isBlank) rfl
  unfold Reader.number
  rcases alike_skipBlanks alike with isSame | ⟨c, rest, isFront, isText, isOther⟩
  · rw [isSame]
    exact agree_refl
  · rw [isText, isOther]
    by_cases isSign : c = '-'
    · simp only [isSign, List.cons_append, List.head?_cons, if_true, List.tail_cons]
      obtain ⟨sameDigits, alikeRest⟩ := digits ((List.suffix_cons c rest).trans isFront)
      rw [sameDigits]
      split
      · exact .matched _ alikeRest
      · exact .unmatched
    · simp only [List.cons_append, List.head?_cons, Option.some.injEq, isSign, if_false]
      obtain ⟨sameDigits, alikeRest⟩ := digits isFront
      simp only [List.cons_append] at sameDigits alikeRest
      rw [sameDigits]
      split
      · exact .matched _ alikeRest
      · exact .unmatched

end Words

end Gap

end TacAnalysis.Source
