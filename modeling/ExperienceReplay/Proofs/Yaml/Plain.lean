import ExperienceReplay.Proofs.Yaml.Places

/-!
Plain scalars. Main statement: a plain scalar without line breaks is read as it stands, up to the
first line that begins further left.
-/

namespace ExperienceReplay.Yaml

variable (spot : Spot) {text rest : List Char}

theorem takeWord_placed {word : List Char}
    (inside : ∀ c ∈ word, isGap c = false ∧ c ≠ ':')
    (ends : endsWord false (headChar rest) (headChar (rest.drop 1)) = true) :
    takeWord false (placed spot (word ++ rest)) = (word, placed (spot.after word) rest) := by
  induction word generalizing spot with
  | nil =>
    cases rest with
    | nil => rfl
    | cons c rest =>
      rw [List.nil_append, placed_cons, takeWord, peek_placed, if_pos (by exact ends)]
      exact congrArg (Prod.mk []) (placed_cons spot c).symm
  | cons c word ih =>
    obtain ⟨⟨noGap, noColon⟩, inside⟩ := List.forall_mem_cons.1 inside
    rw [List.cons_append, placed_cons, takeWord, if_neg (by simp [endsWord, noGap, noColon]),
      ih _ inside]
    rfl

/-- The text of a plain scalar on one line: no space at its ends, and inside nothing that would end
it. -/
structure IsPhrase (text : List Char) : Prop where
  begins : text.head? ≠ some ' '
  ends : text.getLast? ≠ some ' '
  nonempty : text ≠ []
  inside : ∀ c ∈ text, c ≠ ':' ∧ c ≠ '#' ∧ (isGap c = true → c = ' ')

theorem plainFrom_word {indent : Nat} {word gap : List Char} (plain : PlainText) (fuel : Nat)
    (indented : 0 < spot.column) (nonempty : word ≠ []) (noComment : word.head? ≠ some '#')
    (inside : ∀ c ∈ word, isGap c = false ∧ c ≠ ':') (only : IsSpaces gap) (apart : gap ≠ [])
    (begins : isSpace (headChar rest) = false) :
    plainFrom indent false (fuel + 1) plain (placed spot (word ++ (gap ++ rest))) =
      if ((spot.after word).after gap).column < indent then
        some (⟨plain.text ++ foldSpaces plain.spaces ++ word, gap⟩,
          placed ((spot.after word).after gap) rest)
      else
        plainFrom indent false fuel ⟨plain.text ++ foldSpaces plain.spaces ++ word, gap⟩
          (placed ((spot.after word).after gap) rest) := by
  obtain ⟨c, more, rfl⟩ := List.exists_cons_of_ne_nil nonempty
  obtain ⟨b, gap, rfl⟩ := List.exists_cons_of_ne_nil apart
  have space : isSpace b = true := isSpace_of_isSpaces only b List.mem_cons_self
  have ends : endsWord false (headChar (b :: gap ++ rest)) (headChar ((b :: gap ++ rest).drop 1)) =
      true := by
    simp [endsWord, headChar, isGap, space]
  have here : peek (placed (spot.after (c :: more)) (b :: gap ++ rest)) = b := peek_placed _
  have comment : peek (placed spot (c :: more ++ (b :: gap ++ rest))) ≠ '#' := by
    rw [peek_placed]
    exact fun same => noComment (congrArg some same)
  obtain ⟨taken, left⟩ := takeWhile_placed (spot.after (c :: more)) (isSpace_of_isSpaces only)
    begins
  rw [plainFrom, atDocumentMark_of_column spot indented,
    if_neg (by simpa only [Bool.false_or, decide_eq_true_eq] using comment),
    takeWord_placed spot inside ends]
  dsimp only
  rw [here, if_pos space, taken, left, indentsByTab_placed _ only begins, here_placed]
  simp [PlainText.addWord]

namespace IsPhrase

theorem word (isPhrase : IsPhrase text) {word : List Char} (part : ∀ c ∈ word, c ∈ text)
    (none : ' ' ∉ word) : ∀ c ∈ word, isGap c = false ∧ c ≠ ':' := by
  intro c mem
  obtain ⟨noColon, -, gap⟩ := isPhrase.inside c (part c mem)
  refine ⟨Bool.eq_false_iff.2 fun isGap => none ?_, noColon⟩
  rwa [← gap isGap]

theorem no_comment (isPhrase : IsPhrase text) {word : List Char} (part : ∀ c ∈ word, c ∈ text) :
    word.head? ≠ some '#' :=
  fun comment => (isPhrase.inside _ (part _ (List.mem_of_mem_head? comment))).2.1 rfl

theorem no_break (isPhrase : IsPhrase text) : '\n' ∉ text :=
  fun mem => absurd ((isPhrase.inside _ mem).2.2 rfl) (by decide)

theorem not_isSpace_headChar (isPhrase : IsPhrase text) (rest : List Char) :
    isSpace (headChar (text ++ rest)) = false := by
  obtain ⟨c, more, rfl⟩ := List.exists_cons_of_ne_nil isPhrase.nonempty
  rw [Bool.eq_false_iff]
  intro space
  have gap : isGap c = true := by
    rw [isGap, show isSpace c = true from space]
    rfl
  exact isPhrase.begins (congrArg some ((isPhrase.inside c List.mem_cons_self).2.2 gap))

theorem after_word {word rest : List Char} {n : Nat}
    (isPhrase : IsPhrase (word ++ (blanks (n + 1) ++ rest))) (begins : rest.head? ≠ some ' ') :
    IsPhrase rest where
  begins := begins
  ends := by
    have ends := isPhrase.ends
    cases rest with
    | nil => exact (by decide)
    | cons c rest => simpa [List.getLast?_append] using ends
  nonempty := by
    rintro rfl
    have ends := isPhrase.ends
    simp [blanks, List.getLast?_append, List.replicate_succ'] at ends
  inside := fun c mem => isPhrase.inside c (by simp [mem])

end IsPhrase

/-- Inside of a plain scalar the spaces are kept; it ends where the next line begins further
left. -/
theorem plainFrom_placed {indent : Nat} {gap : List Char} (only : IsSpaces gap) (apart : gap ≠ [])
    (begins : isSpace (headChar rest) = false) (text : List Char) :
    ∀ (spot : Spot) (plain : PlainText) (fuel : Nat), IsPhrase text → text.length ≤ fuel →
      0 < spot.column → indent ≤ spot.column →
      ((spot.after text).after gap).column < indent →
      plainFrom indent false fuel plain (placed spot (text ++ (gap ++ rest))) =
        some (⟨plain.text ++ foldSpaces plain.spaces ++ text, gap⟩,
          placed ((spot.after text).after gap) rest) := by
  induction text using words_induction with
  | last word none =>
    intro spot plain fuel isPhrase enough indented deep ends
    obtain ⟨fuel, rfl⟩ := Nat.exists_eq_add_one.2
      (Nat.lt_of_lt_of_le (List.length_pos_iff.2 isPhrase.nonempty) enough)
    have part : ∀ c ∈ word, c ∈ word := fun _ mem => mem
    rw [plainFrom_word spot plain fuel indented isPhrase.nonempty (isPhrase.no_comment part)
      (isPhrase.word part none) only apart begins, if_pos ends]
  | more word n tail none ends ih =>
    intro spot plain fuel isPhrase enough indented deep shallow
    have part : ∀ c ∈ word, c ∈ word ++ (blanks (n + 1) ++ tail) :=
      fun _ mem => List.mem_append_left _ mem
    have nonempty : word ≠ [] := by
      rintro rfl
      exact isPhrase.begins rfl
    have shorter : tail.length + 1 ≤ (word ++ (blanks (n + 1) ++ tail)).length := by
      simp [blanks]
      omega
    obtain ⟨fuel, rfl⟩ := Nat.exists_eq_add_one.2
      (Nat.lt_of_lt_of_le (Nat.zero_lt_succ _) (Nat.le_trans shorter enough))
    have isPhrase' := isPhrase.after_word ends
    have column : spot.column ≤ ((spot.after word).after (blanks (n + 1))).column := by
      rw [← Spot.after_append, Spot.after_of_no_break]
      · exact Nat.le_add_right _ _
      · intro mem
        rw [← List.append_assoc] at isPhrase
        exact isPhrase.no_break (List.mem_append_left _ mem)
    rw [Spot.after_append, Spot.after_append] at shallow ⊢
    rw [List.append_assoc, List.append_assoc, plainFrom_word spot plain fuel indented nonempty
      (isPhrase.no_comment part) (isPhrase.word part none) (isSpaces_blanks (n + 1))
      (List.cons_ne_nil _ _) (isPhrase'.not_isSpace_headChar _), if_neg (by omega),
      ih _ _ fuel isPhrase' (by omega) (by omega) (by omega) shallow]
    simp [foldSpaces_blanks]

theorem countBreaks_pos {gap : List Char} (only : IsSpaces gap) (broken : '\n' ∈ gap) :
    0 < countBreaks gap := by
  induction gap with
  | nil => cases broken
  | cons c gap ih =>
    obtain ⟨space, only'⟩ := List.forall_mem_cons.1 only
    rcases space with rfl | rfl
    · rw [countBreaks.eq_def]
      exact ih only' (List.mem_of_ne_of_mem (by decide) broken)
    · exact Nat.succ_pos _

theorem plainScalar?_placed {indent : Nat} {gap : List Char} (only : IsSpaces gap)
    (broken : '\n' ∈ gap) (begins : isSpace (headChar rest) = false) (isPhrase : IsPhrase text)
    (indented : 0 < spot.column) (deep : indent ≤ spot.column)
    (shallow : ((spot.after text).after gap).column < indent) :
    plainScalar? indent false (placed spot (text ++ (gap ++ rest))) =
      some (String.ofList text, true, placed ((spot.after text).after gap) rest) := by
  have enough : text.length ≤ (placed spot (text ++ (gap ++ rest))).length + 1 := by
    rw [length_placed, List.length_append]
    omega
  have apart : gap ≠ [] := List.ne_nil_of_mem broken
  rw [plainScalar?, plainFrom_placed only apart begins text spot ⟨[], []⟩ _ isPhrase enough indented
    deep shallow]
  simp [foldSpaces, countBreaks, countBreaks_pos only broken]

def isKeyChar (c : Char) : Bool := c.isLower || c == '_'

def IsKey (key : List Char) : Prop :=
  key ≠ [] ∧ key.length ≤ 1024 ∧ key.all isKeyChar = true

namespace IsKey

variable {key : List Char}

theorem not_mem (isKey : IsKey key) {c : Char} (mem : c ∈ key) {others : List Char}
    (different : others.any isKeyChar = false) : c ∉ others :=
  fun other => List.any_eq_false.1 different c other (List.all_eq_true.1 isKey.2.2 c mem)

theorem headChar_not_mem (isKey : IsKey key) (rest : List Char) {others : List Char}
    (different : others.any isKeyChar = false) : headChar (key ++ rest) ∉ others := by
  obtain ⟨c, more, rfl⟩ := List.exists_cons_of_ne_nil isKey.1
  exact isKey.not_mem List.mem_cons_self different

theorem isGap_eq_false (isKey : IsKey key) {c : Char} (mem : c ∈ key) : isGap c = false := by
  have := isKey.not_mem mem (by decide : [' ', '\t', '\n', '\r', '\x00'].any isKeyChar = false)
  simp only [List.mem_cons, List.not_mem_nil, or_false, not_or] at this
  simp [isGap, isSpace, isBlank, isBreak, isEnd, this]

theorem no_break (isKey : IsKey key) : '\n' ∉ key :=
  fun mem => absurd (isKey.isGap_eq_false mem) (by decide)

theorem no_nul (isKey : IsKey key) : '\x00' ∉ key :=
  fun mem => absurd (isKey.isGap_eq_false mem) (by decide)

theorem begins (isKey : IsKey key) (rest : List Char) : BeginsToken (headChar (key ++ rest)) := by
  have other := isKey.headChar_not_mem rest
    (by decide : [' ', '\t', '\n', '\r', '#'].any isKeyChar = false)
  simp only [List.mem_cons, List.not_mem_nil, or_false, not_or] at other
  exact ⟨by simp [isSpace, isBlank, isBreak, other], other.2.2.2.2⟩

end IsKey

theorem plainScalar?_key {indent : Nat} {key : List Char} (isKey : IsKey key)
    (gap : isGap (headChar rest) = true) :
    plainScalar? indent false (placed spot (key ++ ':' :: rest)) =
      some (String.ofList key, false, placed (spot.after key) (':' :: rest)) := by
  have begins := isKey.headChar_not_mem (':' :: rest)
    (by decide : ['-', '.', '#'].any isKeyChar = false)
  simp only [List.mem_cons, List.not_mem_nil, or_false, not_or] at begins
  have inside : ∀ c ∈ key, isGap c = false ∧ c ≠ ':' := fun c mem =>
    ⟨isKey.isGap_eq_false mem,
      fun colon => isKey.not_mem mem (by decide : [':'].any isKeyChar = false)
        (List.mem_singleton.2 colon)⟩
  have ends : endsWord false (headChar (':' :: rest)) (headChar ((':' :: rest).drop 1)) = true := by
    simp only [List.drop_succ_cons, List.drop_zero, endsWord, gap]
    rfl
  have comment : peek (placed spot (key ++ ':' :: rest)) ≠ '#' := by
    rw [peek_placed]
    exact begins.2.2
  have noSpace : isSpace (peek (placed (spot.after key) (':' :: rest))) = false := by
    rw [peek_placed]
    rfl
  rw [plainScalar?, plainFrom, atDocumentMark_of_headChar spot begins.1 begins.2.1,
    if_neg (by simpa only [Bool.false_or, decide_eq_true_eq] using comment),
    takeWord_placed spot inside ends]
  dsimp only
  rw [noSpace, if_neg (by decide)]
  simp [PlainText.addWord, isKey.1, foldSpaces, countBreaks]

end ExperienceReplay.Yaml
