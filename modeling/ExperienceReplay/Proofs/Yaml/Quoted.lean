import ExperienceReplay.Proofs.Yaml.Places
import ExperienceReplay.Yaml.Written

/-!
Quoted scalars. Main statement: a text is read back from its quoted characters.
-/

namespace ExperienceReplay.Yaml

variable (spot : Spot) {text rest : List Char}

theorem codePoint?_digits : ∀ n < 128,
    (List.replicate (4 - (Nat.toDigits 16 n).length) '0' ++ Nat.toDigits 16 n).length = 4 ∧
      codePoint? (List.replicate (4 - (Nat.toDigits 16 n).length) '0' ++ Nat.toDigits 16 n) =
        some (Char.ofNat n) ∧
      (List.replicate (4 - (Nat.toDigits 16 n).length) '0' ++ Nat.toDigits 16 n).any isGap =
        false := by
  decide +kernel

/-- A character is quoted as itself, by a letter, or by its code point. -/
theorem quotedChar_cases (c : Char) :
    (quotedChar c = [c] ∧ c ≠ '"' ∧ c ≠ '\\' ∧ (isGap c = true → c = ' ')) ∨
      (∃ e, quotedChar c = ['\\', e] ∧ codeLength? e = none ∧ escapes.lookup e = some c ∧
        isGap e = false) ∨
      ∃ digits, quotedChar c = '\\' :: 'u' :: digits ∧ digits.length = 4 ∧
        codePoint? digits = some c ∧ digits.any isGap = false := by
  unfold quotedChar
  split
  iterate 7
    right
    left
    exact ⟨_, rfl, rfl, rfl, rfl⟩
  next noQuote noSlash _ noTab noFeed _ noReturn =>
    split
    next control =>
      right
      right
      have small : c.toNat < 128 := by
        rcases control with less | rfl
        · exact Nat.lt_trans less (by decide)
        · decide
      have read := codePoint?_digits c.toNat small
      rw [Char.ofNat_toNat] at read
      exact ⟨_, rfl, read⟩
    next visible =>
      left
      refine ⟨rfl, noQuote, noSlash, fun gap => ?_⟩
      simp only [isGap, isSpace, isBlank, isBreak, isEnd, Bool.or_eq_true, beq_iff_eq] at gap
      rcases gap with ((rfl | rfl) | rfl | rfl) | rfl
      · rfl
      all_goals simp_all

theorem isBreak_of_isGap {c : Char} (noGap : isGap c = false) : isBreak c = false := by
  simp only [isGap, isSpace, Bool.or_eq_false_iff] at noGap
  exact noGap.1.2

theorem escape?_letter {e c : Char} (letter : codeLength? e = none)
    (escaped : escapes.lookup e = some c) :
    escape? (placed spot (e :: rest)) = some (c, placed (spot.next e) rest) := by
  rw [escape?, peek_placed, drop_one_placed, show headChar (e :: rest) = e from rfl, letter,
    escaped]
  rfl

theorem escape?_digits {digits : List Char} {c : Char} (four : digits.length = 4)
    (code : codePoint? digits = some c) :
    escape? (placed spot ('u' :: (digits ++ rest))) =
      some (c, placed ((spot.next 'u').after digits) rest) := by
  have taken : chars ((placed (spot.next 'u') (digits ++ rest)).take 4) = digits := by
    rw [← four, chars_take_placed]
  have left : (placed (spot.next 'u') (digits ++ rest)).drop 4 =
      placed ((spot.next 'u').after digits) rest := by
    rw [← four, drop_placed]
  rw [escape?, peek_placed, drop_one_placed,
    show codeLength? (headChar ('u' :: (digits ++ rest))) = some 4 from rfl]
  dsimp only
  rw [taken, left, code]
  rfl

theorem quotedWord_escape {e c : Char} {more : List Char} {after : List Placed} (fuel : Nat)
    (word : List Char) (noBreak : isBreak e = false)
    (escaped : escape? (placed (spot.next '\\') (e :: more)) = some (c, after)) :
    quotedWord false (fuel + 1) word (placed spot ('\\' :: e :: more)) =
      quotedWord false fuel (word ++ [c]) after := by
  have next : isBreak (headChar (('\\' :: e :: more).drop 1)) = false := noBreak
  rw [quotedWord, peek_placed, peekNext_placed, drop_one_placed, next, escaped]
  rfl

theorem quotedWord_quotedChar {c : Char} (noSpace : c ≠ ' ') (fuel : Nat) (word : List Char) :
    quotedWord false (fuel + 1) word (placed spot (quotedChar c ++ rest)) =
      quotedWord false fuel (word ++ [c]) (placed (spot.after (quotedChar c)) rest) := by
  rcases quotedChar_cases c with ⟨written, noQuote, noSlash, gap⟩ |
    ⟨e, written, letter, escaped, noGap⟩ | ⟨digits, written, four, code, -⟩
  · rw [written, List.singleton_append, quotedWord, peek_placed,
      show headChar (c :: rest) = c from rfl, if_neg fun isGap => noSpace (gap isGap),
      if_neg (by decide), if_neg noQuote, if_neg noSlash, drop_one_placed]
    rfl
  · rw [written]
    exact quotedWord_escape spot fuel word (isBreak_of_isGap noGap)
      (escape?_letter _ letter escaped)
  · rw [written]
    exact quotedWord_escape spot fuel word rfl (escape?_digits _ four code)

theorem quotedWord_word {word : List Char} (noSpace : ' ' ∉ word) (fuel : Nat) (read : List Char) :
    quotedWord false (word.length + fuel) read (placed spot (word.flatMap quotedChar ++ rest)) =
      quotedWord false fuel (read ++ word)
        (placed (spot.after (word.flatMap quotedChar)) rest) := by
  induction word generalizing spot read with
  | nil => simp [Spot.after]
  | cons c word ih =>
    obtain ⟨other, noSpace⟩ := List.ne_and_not_mem_of_not_mem_cons noSpace
    rw [List.length_cons, Nat.succ_add, List.flatMap_cons, List.append_assoc,
      quotedWord_quotedChar spot (Ne.symm other), ih _ noSpace, Spot.after_append]
    simp

theorem gaps_quotedChar (c : Char) : ∀ d ∈ quotedChar c, isGap d = true → d = ' ' := by
  rcases quotedChar_cases c with ⟨written, -, -, gap⟩ | ⟨e, written, -, -, noGap⟩ |
    ⟨digits, written, -, -, noGap⟩
  · rw [written]
    exact List.forall_mem_singleton.2 gap
  · rw [written]
    simp only [List.forall_mem_cons]
    exact ⟨nofun, fun gap => absurd gap (by rw [noGap]; decide), nofun⟩
  · rw [written]
    simp only [List.forall_mem_cons]
    exact ⟨nofun, nofun, fun d mem gap => absurd gap (List.any_eq_false.1 noGap d mem)⟩

theorem gaps_quoted (text : List Char) :
    ∀ d ∈ text.flatMap quotedChar, isGap d = true → d = ' ' := by
  intro d mem
  obtain ⟨c, -, mem⟩ := List.mem_flatMap.1 mem
  exact gaps_quotedChar c d mem

theorem no_break_quoted (text : List Char) : '\n' ∉ text.flatMap quotedChar :=
  fun mem => absurd (gaps_quoted text _ mem rfl) (by decide)

theorem isGap_headChar_quoted (text : List Char) :
    isGap (headChar (text.flatMap quotedChar ++ '"' :: rest)) = true → text.head? = some ' ' := by
  cases text with
  | nil => intro gap; cases gap
  | cons c text =>
    rw [List.flatMap_cons]
    rcases quotedChar_cases c with ⟨written, -, -, space⟩ | ⟨e, written, -⟩ | ⟨digits, written, -⟩
    · rw [written]
      intro gap
      exact congrArg some (space gap)
    · rw [written]
      intro gap
      cases gap
    · rw [written]
      intro gap
      cases gap

theorem length_le_length_quoted (text : List Char) :
    text.length ≤ (text.flatMap quotedChar).length := by
  induction text with
  | nil => exact Nat.le_refl 0
  | cons c text ih =>
    have : 0 < (quotedChar c).length := by
      rcases quotedChar_cases c with ⟨written, -⟩ | ⟨e, written, -⟩ | ⟨digits, written, -⟩ <;>
        simp [written]
    rw [List.flatMap_cons, List.length_append, List.length_cons]
    omega

theorem quoted_blanks (n : Nat) : (blanks n).flatMap quotedChar = blanks n := by
  induction n with
  | zero => rfl
  | succ n ih => exact congrArg (' ' :: ·) ih

theorem quotedWord_closed (fuel : Nat) (word : List Char) :
    quotedWord false (fuel + 1) word (placed spot ('"' :: rest)) =
      some (word, .closed, placed (spot.next '"') rest) := by
  rw [quotedWord, peek_placed, drop_one_placed]
  rfl

theorem quotedWord_spaces (gap : isGap (headChar rest) = true) (fuel : Nat) (word : List Char) :
    quotedWord false (fuel + 1) word (placed spot rest) =
      some (word, .spaces, placed spot rest) := by
  rw [quotedWord, peek_placed, if_pos gap]

theorem exists_fuel (word rest : List Char) :
    ∃ fuel, (placed spot (word.flatMap quotedChar ++ rest)).length + 1 =
      word.length + (fuel + 1) := by
  have := length_le_length_quoted word
  refine ⟨(placed spot (word.flatMap quotedChar ++ rest)).length - word.length, ?_⟩
  rw [length_placed, List.length_append]
  omega

theorem quotedFrom_placed (text : List Char) :
    ∀ (spot : Spot) (read : List Char) (fuel : Nat), text.length < fuel → 0 < spot.column →
      quotedFrom false fuel read (placed spot (text.flatMap quotedChar ++ '"' :: rest)) =
        some (read ++ text, placed ((spot.after (text.flatMap quotedChar)).next '"') rest) := by
  -- no document mark begins here, and the text does not end before its quote
  have inside {text : List Char} {spot : Spot} (indented : 0 < spot.column) :
      (atDocumentMark (placed spot (text.flatMap quotedChar ++ '"' :: rest)) ||
        isEnd (peek (placed spot (text.flatMap quotedChar ++ '"' :: rest)))) = false := by
    rw [atDocumentMark_of_column spot indented, peek_placed, Bool.false_or, Bool.eq_false_iff]
    intro isEnd
    have space := isGap_headChar_quoted text (by rw [isGap, isEnd, Bool.or_true])
    obtain ⟨more, rfl⟩ := List.head?_eq_some_iff.1 space
    cases isEnd
  induction text using words_induction with
  | last word none =>
    intro spot read fuel enough indented
    obtain ⟨fuel, rfl⟩ := Nat.exists_eq_add_one.2 (Nat.zero_lt_of_lt enough)
    obtain ⟨more, length⟩ := exists_fuel spot word ('"' :: rest)
    rw [quotedFrom, inside indented, if_neg (by decide), length, quotedWord_word spot none,
      quotedWord_closed]
    rfl
  | more word n tail none ends ih =>
    intro spot read fuel enough indented
    obtain ⟨fuel, rfl⟩ := Nat.exists_eq_add_one.2 (Nat.zero_lt_of_lt enough)
    have quoted : (word ++ (blanks (n + 1) ++ tail)).flatMap quotedChar =
        word.flatMap quotedChar ++ (blanks (n + 1) ++ tail.flatMap quotedChar) := by
      simp [quoted_blanks]
    have shorter : tail.length < fuel := by
      simp [blanks] at enough
      omega
    have unbroken : '\n' ∉ word.flatMap quotedChar ++ blanks (n + 1) := by
      simp only [List.mem_append, not_or]
      exact ⟨no_break_quoted word, no_break_blanks (n + 1)⟩
    have indented' :
        0 < ((spot.after (word.flatMap quotedChar)).after (blanks (n + 1))).column := by
      rw [← Spot.after_append, Spot.after_of_no_break unbroken]
      exact Nat.add_pos_left indented _
    have begins : isSpace (headChar (tail.flatMap quotedChar ++ '"' :: rest)) = false := by
      rw [Bool.eq_false_iff]
      exact fun space => ends (isGap_headChar_quoted tail (by rw [isGap, space, Bool.true_or]))
    obtain ⟨more, length⟩ :=
      exists_fuel spot word (blanks (n + 1) ++ (tail.flatMap quotedChar ++ '"' :: rest))
    obtain ⟨taken, left⟩ := takeWhile_placed (spot.after (word.flatMap quotedChar))
      (isSpace_of_isSpaces (isSpaces_blanks (n + 1))) begins
    rw [quotedFrom, inside indented, if_neg (by decide), quoted, List.append_assoc,
      List.append_assoc, length, quotedWord_word spot none, quotedWord_spaces _ rfl]
    dsimp only [spanWhile]
    rw [taken, left, foldSpaces_blanks, ih _ _ fuel shorter indented', Spot.after_append,
      Spot.after_append]
    simp

theorem quotedScalar?_placed (text : List Char) :
    quotedScalar? (placed spot ('"' :: (text.flatMap quotedChar ++ '"' :: rest))) =
      some (String.ofList text,
        placed (spot.after ('"' :: (text.flatMap quotedChar ++ ['"']))) rest) := by
  have indented' : 0 < (spot.next '"').column := by
    rw [Spot.next, if_neg (by decide)]
    exact Nat.succ_pos _
  have enough := length_le_length_quoted text
  rw [quotedScalar?, peek_placed, drop_one_placed,
    show (headChar ('"' :: (text.flatMap quotedChar ++ '"' :: rest)) == '\'') = false from rfl,
    quotedFrom_placed text (spot.next '"') [] _ ?_ indented']
  · simp [Spot.after]
  · rw [length_placed, List.length_cons, List.length_append]
    omega

end ExperienceReplay.Yaml
