/-
# White space and comments

White space and line comments stand between the pieces of a text, and every piece skips
those before it. So readers do not tell what stands at a place of a text from anything
else that may stand there. One thing has to be seen to: a class name goes on over slashes,
so that two slashes right after a word may belong to a name instead of starting a comment.
-/

import Mathlib.Data.List.DropRight
import TacAnalysis.Source.Lexical

namespace TacAnalysis.Source

variable {text rest before after : List Char}

/-- White space and whole line comments, which go to the end of their line. -/
inductive Layout : List Char → Prop
  | nil : Layout []
  | blank {c : Char} {rest : List Char} : isBlank c = true → Layout rest → Layout (c :: rest)
  | comment {words rest : List Char} : '\n' ∉ words → Layout rest →
      Layout ('/' :: '/' :: words ++ '\n' :: rest)

/-- There is a comment on the last line of a text, which the text does not end. -/
def EndsInComment (text : List Char) : Prop := ['/', '/'] <:+: text.rtakeWhile (· != '\n')

instance : DecidablePred EndsInComment := fun text =>
  inferInstanceAs (Decidable (['/', '/'] <:+: text.rtakeWhile (· != '\n')))

/-- The last characters of a text are a word, slashes being allowed in it as they are in the
names of classes. -/
def EndsWithWord (text : List Char) : Prop :=
  ∃ c ∈ text.rtakeWhile isClassNameChar, isWordStart c = true

instance : DecidablePred EndsWithWord := fun text =>
  decidable_of_iff ((text.rtakeWhile isClassNameChar).any isWordStart = true) List.any_eq_true

/-- The end of a text that satisfies a condition is at the end of what the text ends with. -/
theorem suffix_rtakeWhile {p : Char → Bool} (isSuffix : rest <:+ text)
    (areGood : ∀ c ∈ rest, p c = true) : rest <:+ text.rtakeWhile p := by
  obtain ⟨front, rfl⟩ := isSuffix
  rw [List.rtakeWhile, List.reverse_append, List.takeWhile_append_of_pos (by simpa using areGood),
    List.reverse_append, List.reverse_reverse]
  exact List.suffix_append _ _

theorem endsInComment_of_suffix (isSuffix : rest <:+ text) (isIn : EndsInComment rest) :
    EndsInComment text := by
  have isLast : rest.rtakeWhile (· != '\n') <:+ text.rtakeWhile (· != '\n') := by
    apply suffix_rtakeWhile ((List.rtakeWhile_suffix _ _).trans isSuffix)
    intro c isLine
    exact List.mem_rtakeWhile_imp (p := (· != '\n')) isLine
  exact List.IsInfix.trans isIn isLast.isInfix

theorem endsInComment_of_notMem (isOpen : '\n' ∉ rest) : EndsInComment ('/' :: '/' :: rest) := by
  have isLast : ('/' :: '/' :: rest) <:+ ('/' :: '/' :: rest).rtakeWhile (· != '\n') := by
    apply suffix_rtakeWhile List.suffix_rfl
    intro c isIn
    rw [bne_iff_ne]
    rintro rfl
    simp [isOpen] at isIn
  exact List.IsInfix.trans ⟨[], rest, rfl⟩ isLast.isInfix

theorem endsWithWord_of_suffix {c : Char} (isText : (c :: rest) <:+ text)
    (isStart : isWordStart c = true) (areWord : ∀ d ∈ rest, isClassNameChar d = true) :
    EndsWithWord text := by
  have isName : isClassNameChar c = true := by
    simp only [isWordStart, isClassNameChar, isWordChar, Char.isAlphanum, Bool.or_eq_true,
      decide_eq_true_eq] at isStart ⊢
    tauto
  have isLast : (c :: rest) <:+ text.rtakeWhile isClassNameChar :=
    suffix_rtakeWhile isText (List.forall_mem_cons.mpr ⟨isName, areWord⟩)
  exact ⟨c, isLast.subset List.mem_cons_self, isStart⟩

theorem layout_of_isBlank (areBlanks : ∀ c ∈ text, isBlank c = true) : Layout text := by
  induction text with
  | nil => exact .nil
  | cons c text ih =>
      obtain ⟨isFirst, areOthers⟩ := List.forall_mem_cons.mp areBlanks
      exact .blank isFirst (ih areOthers)

/-- A layout starts with white space or with a slash. -/
theorem Layout.head_cases {c : Char} (isLayout : Layout (c :: rest)) :
    isBlank c = true ∨ c = '/' := by
  cases isLayout with
  | blank isBlank _ => exact .inl isBlank
  | comment _ _ => exact .inr rfl

/-- A layout is skipped as a whole. -/
theorem Layout.skipBlanks {layout : List Char} (isLayout : Layout layout) (after : List Char) :
    skipBlanks false (layout ++ after) = Source.skipBlanks false after := by
  have inComment (words rest : List Char) (isOpen : '\n' ∉ words) :
      Source.skipBlanks true (words ++ '\n' :: rest) = Source.skipBlanks false rest := by
    induction words with
    | nil => rfl
    | cons c words ih =>
        obtain ⟨isOther, areOpen⟩ := List.ne_and_not_mem_of_not_mem_cons isOpen
        have goesOn : (c != '\n') = true := bne_iff_ne.mpr isOther.symm
        rw [List.cons_append, Source.skipBlanks, if_pos rfl, goesOn, ih areOpen]
  induction isLayout with
  | nil => rfl
  | @blank c rest isBlank _ ih =>
      rw [List.cons_append, Source.skipBlanks, if_neg Bool.false_ne_true, if_pos isBlank, ih]
  | @comment words rest isOpen _ ih =>
      have isComment : Source.skipBlanks false ('/' :: '/' :: words ++ '\n' :: rest ++ after) =
          Source.skipBlanks true (words ++ '\n' :: (rest ++ after)) := by
        simp [Source.skipBlanks, isBlank]
      rw [isComment, inComment _ _ isOpen, ih]

/-- Skipping the blanks at the front of a text that does not end within a comment ends at a
character of the text, or else goes on into what follows the text. -/
theorem skipBlanks_append (inComment : Bool) (notOpen : ¬EndsInComment text)
    (noSlash : text.getLast? ≠ some '/') (closes : inComment = true → '\n' ∈ text) :
    (∃ c rest, (c :: rest) <:+ text ∧
      ∀ after, skipBlanks inComment (text ++ after) = c :: rest ++ after) ∨
    ∀ after, skipBlanks inComment (text ++ after) = skipBlanks false after := by
  induction text generalizing inComment with
  | nil =>
      cases inComment with
      | false => exact .inr fun after => rfl
      | true => exact nomatch closes rfl
  | cons c text ih =>
      have restNotOpen : ¬EndsInComment text := fun isIn =>
        notOpen (endsInComment_of_suffix (List.suffix_cons c text) isIn)
      have restNoSlash : text.getLast? ≠ some '/' := by
        cases text with
        | nil => exact nofun
        | cons => rwa [List.getLast?_cons_cons] at noSlash
      -- Skipping `c` leads to the rest, in a comment or not.
      have skip (within : Bool) (closes : within = true → '\n' ∈ text)
          (skips : ∀ after, skipBlanks inComment (c :: text ++ after) =
            skipBlanks within (text ++ after)) :
          (∃ d rest, (d :: rest) <:+ c :: text ∧
            ∀ after, skipBlanks inComment (c :: text ++ after) = d :: rest ++ after) ∨
          ∀ after, skipBlanks inComment (c :: text ++ after) = skipBlanks false after := by
        simp only [skips]
        rcases ih within restNotOpen restNoSlash closes with ⟨d, rest, isSuffix, ends⟩ | goesOn
        · exact .inl ⟨d, rest, isSuffix.trans (List.suffix_cons c text), ends⟩
        · exact .inr goesOn
      cases inComment with
      | true =>
          refine skip (c != '\n') (fun isOther => ?_) fun after => rfl
          rcases List.mem_cons.mp (closes rfl) with rfl | isIn
          · exact absurd isOther (by decide)
          · exact isIn
      | false =>
          by_cases isBlank : isBlank c = true
          · refine skip false nofun fun after => ?_
            rw [List.cons_append, skipBlanks, if_neg Bool.false_ne_true, if_pos isBlank]
          · cases text with
            | nil =>
                have isOther : c ≠ '/' := fun isSlash => noSlash (by rw [isSlash]; rfl)
                refine .inl ⟨c, [], List.suffix_rfl, fun after => ?_⟩
                simp [skipBlanks, isBlank, isOther]
            | cons d text =>
                by_cases isComment : c = '/' ∧ d = '/'
                · obtain ⟨rfl, rfl⟩ := isComment
                  have isClosed : '\n' ∈ '/' :: text := by
                    by_contra isOpen
                    exact notOpen (endsInComment_of_notMem
                      (List.ne_and_not_mem_of_not_mem_cons isOpen).2)
                  refine skip true (fun _ => isClosed) fun after => ?_
                  simp [skipBlanks, isBlank]
                · refine .inl ⟨c, d :: text, List.suffix_rfl, fun after => ?_⟩
                  simp [skipBlanks, isBlank, isComment]

end TacAnalysis.Source
