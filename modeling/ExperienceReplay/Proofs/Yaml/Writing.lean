import ExperienceReplay.Proofs.Yaml.Lines
import ExperienceReplay.Proofs.Yaml.Scalar

/-!
How scalars are written. Main statements: a text is written as it stands where nothing in it gives
it another meaning, and in quotes otherwise; numbers and words are written as they stand.
-/

namespace ExperienceReplay.Yaml.Scanner

theorem eq_blank_of_isGap {c : Char} (plain : isSpecial c = false) (gap : isGap c = true) :
    c = ' ' := by
  simp only [isGap, isSpace, isBlank, isBreak, isEnd, Bool.or_eq_true, beq_iff_eq] at gap
  rcases gap with ((rfl | rfl) | rfl | rfl) | rfl
  · rfl
  all_goals exact absurd plain (by decide)

theorem isIndicator_or_isSpecial :
    ('-' :: indicators).all (fun c => isIndicator c || isSpecial c) = true := by
  decide

section

variable {text : String} (plain : needsQuotes text = false)
include plain

theorem isPhrase_of_needsQuotes : IsPhrase text.toList := by
  simp only [needsQuotes, Bool.or_eq_false_iff, beq_eq_false_iff_ne, List.any_eq_false,
    Bool.not_eq_true] at plain
  obtain ⟨⟨⟨⟨⟨⟨⟨nonempty, begins⟩, ends⟩, -⟩, special⟩, -⟩, -⟩, -⟩ := plain
  refine ⟨begins, ends, List.isEmpty_eq_false_iff.1 nonempty, fun c mem => ⟨?_, ?_, ?_⟩⟩
  · rintro rfl
    exact absurd (special _ mem) (by decide)
  · rintro rfl
    exact absurd (special _ mem) (by decide)
  · exact eq_blank_of_isGap (special c mem)

theorem headChar_of_needsQuotes : headChar text.toList ∉ '-' :: indicators := by
  intro mem
  obtain ⟨c, rest, split⟩ := List.exists_cons_of_ne_nil (isPhrase_of_needsQuotes plain).nonempty
  have either := List.all_eq_true.1 isIndicator_or_isSpecial _ mem
  simp only [needsQuotes, Bool.or_eq_false_iff, List.any_eq_false] at plain
  obtain ⟨⟨⟨⟨⟨-, indicator⟩, special⟩, -⟩, -⟩, -⟩ := plain
  rw [split] at either indicator special
  change (isIndicator c || isSpecial c) = true at either
  rw [List.head?_cons, Option.any_some] at indicator
  rw [indicator, Bool.false_or] at either
  exact special c List.mem_cons_self either

end

theorem isWritten_writeText (text : String) :
    IsWritten (writeText text).toList text (!needsQuotes text) := by
  unfold writeText
  cases plain : needsQuotes text with
  | false =>
    have other := headChar_of_needsQuotes plain
    rw [List.mem_cons, not_or] at other
    have written := IsWritten.plain (isPhrase_of_needsQuotes plain) other.2
      fun hyphen => absurd hyphen other.1
    rwa [String.ofList_toList] at written
  | true =>
    have written := IsWritten.quoted text.toList
    rw [String.ofList_toList] at written
    rwa [if_pos rfl, String.toList_ofList]

def isWordChar (c : Char) : Bool := c.isAlphanum || ['-', '.', '~'].contains c

theorem not_mem_of_isWordChar {c : Char} (word : isWordChar c = true) :
    c ∉ ':' :: '#' :: ' ' :: '\t' :: '\n' :: '\r' :: '\x00' :: indicators := by
  have others : (':' :: '#' :: ' ' :: '\t' :: '\n' :: '\r' :: '\x00' :: indicators).any isWordChar =
      false := by
    decide
  exact fun mem => List.any_eq_false.1 others c mem word

theorem isGap_of_isWordChar {c : Char} (word : isWordChar c = true) : isGap c = false := by
  have := not_mem_of_isWordChar word
  simp only [List.mem_cons, not_or] at this
  simp [isGap, isSpace, isBlank, isBreak, isEnd, this]

theorem isWritten_word {text : String} (nonempty : text.toList ≠ [])
    (word : text.toList.all isWordChar = true) (hyphen : text.toList ≠ ['-']) :
    IsWritten text.toList text true := by
  rw [List.all_eq_true] at word
  have gap : ∀ c ∈ text.toList, isGap c = false := fun c mem => isGap_of_isWordChar (word c mem)
  have noSpace : ' ' ∉ text.toList := fun mem => absurd (gap _ mem) (by decide)
  have isPhrase : IsPhrase text.toList := by
    refine ⟨fun head => noSpace (List.mem_of_mem_head? head),
      fun last => noSpace (List.mem_of_getLast? last), nonempty, fun c mem => ?_⟩
    have := not_mem_of_isWordChar (word c mem)
    simp only [List.mem_cons, not_or] at this
    exact ⟨this.1, this.2.1, fun isGap => absurd (gap c mem) (by rw [isGap]; decide)⟩
  have written := IsWritten.plain isPhrase ?_ ?_
  · rwa [String.ofList_toList] at written
  · obtain ⟨c, rest, split⟩ := List.exists_cons_of_ne_nil nonempty
    rw [split] at word ⊢
    exact fun mem => not_mem_of_isWordChar (word c List.mem_cons_self)
      (by simp [show c ∈ indicators from mem])
  · intro isHyphen
    obtain ⟨c, rest, split⟩ := List.exists_cons_of_ne_nil nonempty
    rw [split] at isHyphen gap hyphen ⊢
    cases rest with
    | nil => exact absurd (congrArg (fun c => [c]) isHyphen) hyphen
    | cons d rest => exact gap d (by simp)

theorem isWordChar_of_isDigit {c : Char} (digit : c.isDigit = true) : isWordChar c = true := by
  rw [isWordChar, Char.isAlphanum, digit, Bool.or_true, Bool.true_or]

theorem isWritten_repr (n : Nat) : IsWritten n.repr.toList n.repr true := by
  obtain ⟨c, rest, split, digit⟩ := Decimal.exists_toDigits_eq_cons n
  have digits : n.repr.toList = Nat.toDigits 10 n := by
    rw [Nat.repr_eq_ofList_toDigits, String.toList_ofList]
  refine isWritten_word (by rw [digits]; exact Nat.toDigits_ne_nil) ?_ ?_
  · rw [digits, List.all_eq_true]
    exact fun c mem => isWordChar_of_isDigit (Decimal.isDigit_of_mem_toDigits mem)
  · rw [digits, split]
    rintro ⟨⟩
    cases digit

theorem isWritten_signed {text : List Char} {written : String} {d : Decimal}
    (writes : Decimal.Writes text d) {negative : Bool}
    (h : written.toList = Decimal.signed negative text) :
    IsWritten written.toList written true := by
  obtain ⟨c, rest, split, digit⟩ := exists_eq_cons_of_writes writes
  have word : text.all isWordChar = true := by
    rw [List.all_eq_true]
    intro c mem
    rcases writes.1.chars c mem with digit | rfl | rfl | rfl
    · exact isWordChar_of_isDigit digit
    all_goals decide
  refine isWritten_word ?_ ?_ ?_ <;> rw [h, Decimal.signed]
  · cases negative <;> simp [split]
  · cases negative
    · exact word
    · rw [if_pos rfl, List.all_cons, word]
      rfl
  · cases negative
    · rw [if_neg (by decide), split]
      rintro ⟨⟩
      cases digit
    · rw [if_pos rfl, split]
      exact fun same => List.cons_ne_nil _ _ (List.cons.inj same).2

theorem isWritten_writeNumber (x : Binary32) :
    IsWritten (writeNumber x).toList (writeNumber x) true := by
  cases x with
  | nan => exact isWritten_word (by decide) (by decide) (by decide)
  | infinite negative =>
    cases negative <;> exact isWritten_word (by decide) (by decide) (by decide)
  | finite negative magnitude =>
    exact isWritten_signed (writes_writeMagnitude numberStyle rfl magnitude)
      (toList_writeNumber_finite negative magnitude)

theorem isWritten_writeBool (b : Bool) : IsWritten (writeBool b).toList (writeBool b) true := by
  cases b <;> exact isWritten_word (by decide) (by decide) (by decide)

theorem isWritten_null : IsWritten "~".toList "~" true :=
  isWritten_word (by decide) (by decide) (by decide)

end ExperienceReplay.Yaml.Scanner
