import ExperienceReplay.Proofs.Yaml.Scanning
import Mathlib.Data.List.TakeWhile
import Mathlib.Logic.Relation

/-!
Runs of the scanner. Main statements: the tokens of a line of a block collection, for every way
that such a line is written, and the tokens of a whole text from those of its lines.
-/

namespace ExperienceReplay.Yaml.Scanner

variable {s t : Scanner} {spot : Spot} {text rest : List Char} {tokens : List Token}
  {indents : List Nat} {keyAllowed : Bool}

/-- From token to token: the token that begins here is read, and what follows it is passed. -/
def Next (s t : Scanner) : Prop :=
  isEnd (peek s.text) = false ∧ t.text.length < s.text.length ∧
    ∃ read, s.token? = some read ∧ read.toNextToken? = some t

abbrev Scans : Scanner → Scanner → Prop := Relation.ReflTransGen Next

/-- Every token takes a character at least, so that the fuel lasts to the end of the text. -/
theorem run_of_scans {done : Scanner} (scans : Scans s t) (ends : isEnd (peek t.text) = true)
    (finish : (t.unroll none).dropKey? = some done) :
    ∀ (start : Scanner) (fuel : Nat), start.toNextToken? = some s → s.text.length < fuel →
      run fuel start = some done := by
  induction scans using Relation.ReflTransGen.head_induction_on with
  | refl =>
    intro start fuel next enough
    obtain ⟨fuel, rfl⟩ := Nat.exists_eq_add_one.2 (Nat.zero_lt_of_lt enough)
    simp only [run, next, Option.bind_eq_bind, Option.bind_some, ends, if_true, finish]
  | head first _ ih =>
    intro start fuel next enough
    obtain ⟨fuel, rfl⟩ := Nat.exists_eq_add_one.2 (Nat.zero_lt_of_lt enough)
    obtain ⟨more, shorter, read, token, next'⟩ := first
    simp only [run, next, Option.bind_eq_bind, Option.bind_some, more, token]
    exact ih read fuel next' (by omega)

def At (column : Nat) (text : List Char) (tokens : List Token) (indents : List Nat)
    (keyAllowed : Bool) (s : Scanner) : Prop :=
  ∃ spot : Spot, spot.column = column ∧ s.Stands spot text tokens indents keyAllowed

/-- Wherever the first holds, the scanner comes to where the second does. -/
def Leads (P Q : Scanner → Prop) : Prop := ∀ s, P s → ∃ t, Scans s t ∧ Q t

theorem Leads.trans {P Q R : Scanner → Prop} (first : Leads P Q) (second : Leads Q R) :
    Leads P R := by
  intro s here
  obtain ⟨t, scans, there⟩ := first s here
  obtain ⟨u, scans', there'⟩ := second t there
  exact ⟨u, scans.trans scans', there'⟩

def newline (n : Nat) : List Char := '\n' :: blanks n

theorem isSpaces_newline (n : Nat) : IsSpaces (newline n) :=
  List.forall_mem_cons.2 ⟨Or.inr rfl, isSpaces_blanks n⟩

theorem column_newline (spot : Spot) (n : Nat) : (spot.after (newline n)).column = n := by
  change ((spot.next '\n').after (blanks n)).column = n
  rw [Spot.after_of_no_break (no_break_blanks n), Spot.next, if_pos rfl]
  simp [blanks]

theorem exists_scans {read : Scanner} {spot' : Spot} (spaces : List Char)
    (here : s.text = placed spot text) (more : isEnd (headChar text) = false)
    (token : s.token? = some read)
    (stands : read.Stands spot' (spaces ++ rest) tokens indents keyAllowed)
    (only : IsSpaces spaces) (begins : BeginsToken (headChar rest))
    (shorter : rest.length < text.length) :
    ∃ t, Scans s t ∧ t.Stands (spot'.after spaces) rest
      (tokens ++ blockEnds (indents.takeWhile ((spot'.after spaces).column < ·)).length)
      (indents.dropWhile ((spot'.after spaces).column < ·))
      (keyAllowed || spaces.contains '\n') := by
  obtain ⟨t, next, there⟩ := stands.exists_next only begins
  refine ⟨t, .single ⟨?_, ?_, read, token, next⟩, there⟩
  · rw [here, peek_placed, more]
  · rw [here, there.text, length_placed, length_placed]
    omega

theorem isEnd_headChar_of_isKey {key : List Char} (isKey : IsKey key) (rest : List Char) :
    isEnd (headChar (key ++ rest)) = false := by
  have := isKey.headChar_not_mem rest (by decide : ['\x00'].any isKeyChar = false)
  simpa [isEnd] using this

section

variable (tokens)

/-- A key and its colon are two tokens; the second one gives the first its meaning. -/
theorem leads_key {column : Nat} {key : List Char} (isKey : IsKey key) (gap : List Char)
    (only : IsSpaces gap) (apart : gap ≠ []) (begins : BeginsToken (headChar rest))
    (inside : indents.head?.all (· ≤ column)) {right : Nat}
    (moved : ∀ spot : Spot, spot.column = column →
      (((spot.after key).next ':').after gap).column = right) (le : column ≤ right) :
    Leads (At column (key ++ ':' :: (gap ++ rest)) tokens indents true)
      (At right rest (tokens ++ keyTokens key column indents) (opened column indents)
        (gap.contains '\n')) := by
  rintro s ⟨spot, rfl, stands⟩
  have gapped : isGap (headChar (gap ++ rest)) = true := by
    obtain ⟨c, more, rfl⟩ := List.exists_cons_of_ne_nil apart
    rw [isGap, show headChar (c :: more ++ rest) = c from rfl,
      isSpace_of_isSpaces only c List.mem_cons_self]
    rfl
  have other := isKey.headChar_not_mem (':' :: (gap ++ rest))
    (by decide : ('-' :: '.' :: indicators).any isKeyChar = false)
  simp only [List.mem_cons, not_or] at other
  have token : s.token? = s.plain? :=
    token?_eq_plain? stands.text (no_marks stands.text (by simp [other])) other.2.2
      fun hyphen => absurd hyphen other.1
  rw [stands.plain?_key isKey gapped] at token
  obtain ⟨t, value, there⟩ := stands.value?_keyed
  have after := stands.text_keyed
  have scans : Next s (s.keyed key) := by
    refine ⟨?_, ?_, _, token, stands.toNextToken?_keyed isKey inside⟩
    · rw [stands.text, peek_placed]
      exact isEnd_headChar_of_isKey isKey _
    · have := List.length_pos_iff.2 isKey.1
      rw [after, stands.text, length_placed, length_placed, List.length_append]
      omega
  have colon := token?_eq_value? after rfl gapped
  rw [value] at colon
  obtain ⟨u, scans', stands'⟩ := exists_scans gap after rfl colon there only begins
    (by rw [List.length_cons, List.length_append]; omega)
  obtain ⟨closed, left⟩ := no_closings (inside_opened inside) le
  rw [moved spot rfl, closed, left, Bool.false_or, blockEnds, List.length_nil, List.replicate_zero,
    List.append_nil] at stands'
  exact ⟨u, .head scans scans', _, moved spot rfl, stands'⟩

theorem leads_key_value {column : Nat} {key : List Char} (isKey : IsKey key)
    (begins : BeginsToken (headChar rest)) (inside : indents.head?.all (· ≤ column)) :
    Leads (At column (key ++ ':' :: ' ' :: rest) tokens indents true)
      (At (column + key.length + 2) rest (tokens ++ keyTokens key column indents)
        (opened column indents) false) := by
  refine leads_key tokens isKey [' '] (isSpaces_blanks 1) (List.cons_ne_nil _ _) begins inside ?_
    (by omega)
  rintro spot rfl
  rw [Spot.after_of_no_break isKey.no_break]
  rfl

theorem leads_key_newline {column n : Nat} {key : List Char} (isKey : IsKey key)
    (begins : BeginsToken (headChar rest)) (inside : indents.head?.all (· ≤ column))
    (deeper : column ≤ n) :
    Leads (At column (key ++ ':' :: (newline n ++ rest)) tokens indents true)
      (At n rest (tokens ++ keyTokens key column indents) (opened column indents) true) :=
  leads_key tokens isKey (newline n) (isSpaces_newline n) (List.cons_ne_nil _ _) begins inside
    (fun _ _ => column_newline _ n) deeper

inductive IsWritten : List Char → String → Bool → Prop where
  | plain {text : List Char} (isPhrase : IsPhrase text) (opens : headChar text ∉ indicators)
      (hyphen : headChar text = '-' → isGap (headChar (text.drop 1)) = false) :
      IsWritten text (String.ofList text) true
  | quoted (text : List Char) :
      IsWritten ('"' :: (text.flatMap quotedChar ++ ['"'])) (String.ofList text) false

namespace IsWritten

variable {written : List Char} {text : String} {plain : Bool}

theorem begins (isWritten : IsWritten written text plain) (rest : List Char) :
    BeginsToken (headChar (written ++ rest)) := by
  cases isWritten with
  | plain isPhrase =>
    refine ⟨isPhrase.not_isSpace_headChar rest, ?_⟩
    obtain ⟨c, more, rfl⟩ := List.exists_cons_of_ne_nil isPhrase.nonempty
    exact (isPhrase.inside c List.mem_cons_self).2.1
  | quoted text => exact ⟨rfl, (by decide : '"' ≠ '#')⟩

theorem gaps (isWritten : IsWritten written text plain) :
    ∀ c ∈ written, isGap c = true → c = ' ' := by
  cases isWritten with
  | plain isPhrase => exact fun c mem => (isPhrase.inside c mem).2.2
  | quoted text =>
    simp only [List.forall_mem_cons, List.forall_mem_append]
    exact ⟨nofun, gaps_quoted text, nofun, nofun⟩

end IsWritten

theorem leads_scalar {column indent n : Nat} {written : List Char} {text : String} {plain : Bool}
    (isWritten : IsWritten written text plain) (begins : BeginsToken (headChar rest))
    (deep : indent < column) (shallow : n ≤ indent) :
    Leads (At column (written ++ (newline n ++ rest)) tokens (indent :: indents) false)
      (At n rest
        (tokens ++ .scalar text plain ::
          blockEnds ((indent :: indents).takeWhile (n < ·)).length)
        ((indent :: indents).dropWhile (n < ·)) true) := by
  rintro s ⟨spot, rfl, stands⟩
  have column (spot : Spot) : ((spot.after (newline n)).after []).column = n :=
    column_newline spot n
  have shorter : rest.length < (written ++ (newline n ++ rest)).length := by
    simp only [List.length_append, newline, List.length_cons]
    omega
  cases isWritten with
  | @plain text isPhrase opens hyphen =>
    obtain ⟨c, more, rfl⟩ := List.exists_cons_of_ne_nil isPhrase.nonempty
    have indented : 0 < spot.column := Nat.zero_lt_of_lt deep
    have entry : headChar (c :: more ++ (newline n ++ rest)) = '-' →
        isGap (headChar ((c :: more ++ (newline n ++ rest)).drop 1)) = false := by
      intro isHyphen
      have next := hyphen isHyphen
      cases more with
      | nil => cases next
      | cons d more => exact next
    have token :=
      token?_eq_plain? stands.text (no_marks_of_column stands.text indented) opens entry
    obtain ⟨read, value, there⟩ := stands.plain? isPhrase (isSpaces_newline n) List.mem_cons_self
      begins.1 deep (by rw [column_newline]; exact shallow)
    rw [value] at token
    have visible : isEnd c = false := by
      rw [Bool.eq_false_iff]
      intro isEnd
      have space := (isPhrase.inside c List.mem_cons_self).2.2 (by rw [isGap, isEnd, Bool.or_true])
      rw [space] at isEnd
      cases isEnd
    obtain ⟨t, scans, stands'⟩ := exists_scans [] stands.text visible token there
      (List.forall_mem_nil _) begins shorter
    rw [column, Bool.true_or, List.append_assoc] at stands'
    exact ⟨t, scans, _, column _, stands'⟩
  | quoted text =>
    have quoted : '"' :: (text.flatMap quotedChar ++ ['"']) ++ (newline n ++ rest) =
        '"' :: (text.flatMap quotedChar ++ '"' :: (newline n ++ rest)) := by
      simp
    rw [quoted] at stands
    obtain ⟨read, value, there⟩ := stands.quoted?
    have token := token?_eq_quoted? stands.text rfl
    rw [value] at token
    obtain ⟨t, scans, stands'⟩ := exists_scans (newline n) stands.text rfl token there
      (isSpaces_newline n) begins (quoted ▸ shorter)
    rw [column_newline, List.append_assoc] at stands'
    exact ⟨t, scans, _, column_newline _ n, stands'⟩

theorem leads_item {column : Nat} (indented : 0 < column) (begins : BeginsToken (headChar rest))
    (inside : indents.head?.all (· ≤ column)) :
    Leads (At column ('-' :: ' ' :: rest) tokens indents true)
      (At (column + 2) rest (tokens ++ opening .blockSequenceStart column indents ++ [.blockEntry])
        (opened column indents) true) := by
  rintro s ⟨spot, rfl, stands⟩
  obtain ⟨read, value, there⟩ := stands.blockEntry?
  have token := token?_eq_blockEntry? stands.text indented rfl rfl
  rw [value] at token
  obtain ⟨t, scans, stands'⟩ := exists_scans (blanks 1) stands.text rfl token there
    (isSpaces_blanks 1) begins (by simp only [List.length_cons]; omega)
  have moved : ((spot.next '-').after (blanks 1)).column = spot.column + 2 := rfl
  obtain ⟨closed, left⟩ := no_closings (inside_opened inside) (Nat.le_add_right spot.column 2)
  rw [moved, closed, left, Bool.true_or, blockEnds, List.length_nil, List.replicate_zero,
    List.append_nil] at stands'
  exact ⟨t, scans, _, moved, stands'⟩

theorem leads_emptySequence {column n : Nat} (begins : BeginsToken (headChar rest)) :
    Leads (At column ('[' :: ']' :: (newline n ++ rest)) tokens indents false)
      (At n rest
        (tokens ++ .flowSequenceStart :: .flowSequenceEnd ::
          blockEnds (indents.takeWhile (n < ·)).length)
        (indents.dropWhile (n < ·)) true) := by
  rintro s ⟨spot, rfl, stands⟩
  obtain ⟨read, token, there⟩ := stands.closed_inSequence
  have opened : Next s s.inSequence := by
    refine ⟨?_, ?_, _, stands.token?_inSequence, stands.toNextToken?_inSequence⟩
    · rw [stands.text, peek_placed]
      rfl
    · rw [stands.text, stands.text_inSequence]
      simp only [length_placed, List.length_cons]
      omega
  obtain ⟨t, scans, stands'⟩ := exists_scans (newline n) stands.text_inSequence rfl token there
    (isSpaces_newline n) begins (by simp only [List.length_cons, List.length_append]; omega)
  rw [column_newline, List.append_assoc] at stands'
  exact ⟨t, .head opened scans, _, column_newline _ n, stands'⟩

theorem leads_documentStart (begins : BeginsToken (headChar rest)) :
    Leads (At 0 ('-' :: '-' :: '-' :: (newline 0 ++ rest)) tokens [] true)
      (At 0 rest (tokens ++ [.documentStart]) [] true) := by
  rintro s ⟨spot, start, stands⟩
  have closed := stands.unroll none
  have pushed := closed.push .documentStart
  have token : s.token? = s.topLevel? .documentStart (s.text.drop 3) := by
    have mark : isDocumentMark '-' (placed spot ('-' :: '-' :: '-' :: (newline 0 ++ rest))) =
        true :=
      isDocumentMark_placed '-' rfl start
    rw [token?, stands.text, mark, peek_placed, if_neg (by simp [headChar]), if_pos rfl]
  rw [topLevel?, closed.dropKey?] at token
  have there : Stands { (s.unroll none).push .documentStart with
        keyAllowed := false
        text := s.text.drop 3 }
      (((spot.next '-').next '-').next '-') (newline 0 ++ rest) (tokens ++ [.documentStart]) []
      false :=
    ⟨by rw [stands.text]; exact drop_placed spot ['-', '-', '-'],
      by simpa [blockEnds] using pushed.tokens, pushed.indents, rfl, pushed.key, pushed.outer⟩
  obtain ⟨t, scans, stands'⟩ := exists_scans (newline 0) stands.text rfl token there
    (isSpaces_newline 0) begins (by simp only [List.length_cons, List.length_append]; omega)
  rw [column_newline, List.takeWhile_nil, List.length_nil, blockEnds, List.replicate_zero,
    List.append_nil] at stands'
  exact ⟨t, scans, _, column_newline _ 0, stands'⟩

end

theorem tokens?_of_leads {text : List Char} {column : Nat} (noNul : '\x00' ∉ text)
    (begins : BeginsToken (headChar text))
    (leads : Leads (At 0 text [] [] true) (At column [] tokens indents keyAllowed)) :
    tokens? text = some (tokens ++ blockEnds indents.length) := by
  have whole : text.takeWhile (· ≠ '\x00') = text :=
    List.takeWhile_eq_self_iff.2 fun c mem => by
      rw [decide_eq_true_eq]
      rintro rfl
      exact noNul mem
  have start : (Scanner.ofText (placed ⟨0, 0, 0⟩ text)).Stands ⟨0, 0, 0⟩ ([] ++ text) [] [] true :=
    ⟨rfl, rfl, rfl, rfl, rfl, rfl⟩
  obtain ⟨s, next, stands⟩ := start.exists_next (List.forall_mem_nil _) begins
  obtain ⟨t, scans, spot, -, there⟩ := leads s ⟨_, rfl, stands⟩
  have closed := there.unroll none
  have done := run_of_scans scans (by rw [there.text, peek_placed]; rfl) closed.dropKey? _
    ((placed ⟨0, 0, 0⟩ text).length + 1) next
    (by rw [stands.text, length_placed, length_placed]; exact Nat.lt_succ_self _)
  have all : indents.takeWhile (fun _ => true) = indents :=
    List.takeWhile_eq_self_iff.2 fun _ _ => rfl
  rw [tokens?, Placed.ofText, whole]
  change (run ((placed ⟨0, 0, 0⟩ text).length + 1) (.ofText (placed ⟨0, 0, 0⟩ text))).map _ = _
  rw [done, Option.map_some, closed.tokens]
  simp [all]

end ExperienceReplay.Yaml.Scanner
