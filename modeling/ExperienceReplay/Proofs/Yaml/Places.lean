import ExperienceReplay.Yaml.Token.Scan
import Mathlib.Data.List.Basic

/-!
Texts at their places. Main statements: what is left after a text stands where the text ends, and
spaces are passed from token to token.
-/

namespace ExperienceReplay.Yaml

structure Spot where
  index : Nat
  line : Nat
  column : Nat

namespace Spot

def next (spot : Spot) (c : Char) : Spot :=
  if c = '\n' then ⟨spot.index + 1, spot.line + 1, 0⟩
  else ⟨spot.index + 1, spot.line, spot.column + 1⟩

def after (spot : Spot) (text : List Char) : Spot := text.foldl next spot

theorem after_append (spot : Spot) (left right : List Char) :
    spot.after (left ++ right) = (spot.after left).after right :=
  List.foldl_append

theorem after_of_no_break {spot : Spot} {text : List Char} (unbroken : '\n' ∉ text) :
    spot.after text = ⟨spot.index + text.length, spot.line, spot.column + text.length⟩ := by
  induction text generalizing spot with
  | nil => rfl
  | cons c text ih =>
    obtain ⟨other, unbroken⟩ := List.ne_and_not_mem_of_not_mem_cons unbroken
    rw [after, List.foldl_cons, ← after, next, if_neg (Ne.symm other), ih unbroken,
      List.length_cons]
    simp only [Spot.mk.injEq, true_and]
    constructor <;> omega

end Spot

def placed (spot : Spot) (text : List Char) : List Placed :=
  Placed.place spot.index spot.line spot.column text

/-- The first character of a text, and what is found at its end. -/
def headChar (text : List Char) : Char := text.headD '\x00'

variable (spot : Spot) {text rest : List Char}

theorem placed_cons (c : Char) :
    placed spot (c :: text) =
      ⟨c, spot.index, spot.line, spot.column⟩ :: placed (spot.next c) text := by
  unfold placed Spot.next
  rw [Placed.place]
  split <;> rfl

theorem length_placed : (placed spot text).length = text.length + 1 := by
  induction text generalizing spot with
  | nil => rfl
  | cons c text ih => rw [placed_cons, List.length_cons, ih, List.length_cons]

theorem here_placed :
    here (placed spot text) = ⟨headChar text, spot.index, spot.line, spot.column⟩ := by
  cases text with
  | nil => rfl
  | cons c text => rw [placed_cons]; rfl

theorem peek_placed : peek (placed spot text) = headChar text := by
  rw [peek, here_placed]

theorem drop_placed (word : List Char) :
    (placed spot (word ++ rest)).drop word.length = placed (spot.after word) rest := by
  induction word generalizing spot with
  | nil => rfl
  | cons c word ih =>
    rw [List.cons_append, placed_cons, List.length_cons, List.drop_succ_cons, ih]
    rfl

theorem chars_take_placed (word : List Char) :
    chars ((placed spot (word ++ rest)).take word.length) = word := by
  induction word generalizing spot with
  | nil => rfl
  | cons c word ih =>
    rw [List.cons_append, placed_cons, List.length_cons, List.take_succ_cons]
    exact congrArg (c :: ·) (ih (spot.next c))

theorem drop_one_placed (c : Char) :
    (placed spot (c :: rest)).drop 1 = placed (spot.next c) rest :=
  drop_placed spot [c]

theorem peekNext_placed : peekNext (placed spot text) = headChar (text.drop 1) := by
  cases text with
  | nil => rfl
  | cons c text => rw [peekNext, drop_one_placed, peek_placed]; rfl

theorem exists_placed_eq_cons (text : List Char) :
    ∃ more, placed spot text = ⟨headChar text, spot.index, spot.line, spot.column⟩ :: more := by
  cases text with
  | nil => exact ⟨[], rfl⟩
  | cons c text => exact ⟨_, placed_cons spot c⟩

theorem takeWhile_placed {holds : Char → Bool} {word : List Char}
    (inside : ∀ c ∈ word, holds c = true) (ends : holds (headChar rest) = false) :
    chars ((placed spot (word ++ rest)).takeWhile (holds ·.char)) = word ∧
      (placed spot (word ++ rest)).dropWhile (holds ·.char) = placed (spot.after word) rest := by
  induction word generalizing spot with
  | nil =>
    obtain ⟨more, split⟩ := exists_placed_eq_cons spot rest
    rw [List.nil_append, Spot.after, List.foldl_nil, split,
      List.takeWhile_cons_of_neg (by simpa using ends),
      List.dropWhile_cons_of_neg (by simpa using ends)]
    exact ⟨rfl, rfl⟩
  | cons c word ih =>
    obtain ⟨here, inside⟩ := List.forall_mem_cons.1 inside
    obtain ⟨taken, left⟩ := ih (spot.next c) inside
    rw [List.cons_append, placed_cons, List.takeWhile_cons_of_pos (by exact here),
      List.dropWhile_cons_of_pos (by exact here), left]
    exact ⟨congrArg (c :: ·) taken, rfl⟩

theorem isDocumentMark_of_column {mark : Char} (indented : 0 < spot.column) :
    isDocumentMark mark (placed spot text) = false := by
  have : ((here (placed spot text)).column == 0) = false := by
    rw [here_placed]
    exact beq_false_of_ne (Nat.ne_of_gt indented)
  simp only [isDocumentMark, this, Bool.false_and]

theorem isDocumentMark_of_headChar {mark : Char} (other : headChar text ≠ mark) :
    isDocumentMark mark (placed spot text) = false := by
  obtain ⟨more, split⟩ := exists_placed_eq_cons spot text
  rw [split]
  rcases more with _ | ⟨_, _ | ⟨_, more⟩⟩ <;> simp [isDocumentMark, other]

theorem isDocumentMark_placed {spot : Spot} (mark : Char) (gap : isGap (headChar rest) = true)
    (start : spot.column = 0) :
    isDocumentMark mark (placed spot (mark :: mark :: mark :: rest)) = true := by
  simp [placed_cons, isDocumentMark, here, start, peek_placed, gap]

theorem atDocumentMark_of_column (indented : 0 < spot.column) :
    atDocumentMark (placed spot text) = false := by
  rw [atDocumentMark, isDocumentMark_of_column spot indented,
    isDocumentMark_of_column spot indented]
  rfl

theorem atDocumentMark_of_headChar (noHyphen : headChar text ≠ '-')
    (noPoint : headChar text ≠ '.') :
    atDocumentMark (placed spot text) = false := by
  rw [atDocumentMark, isDocumentMark_of_headChar spot noHyphen,
    isDocumentMark_of_headChar spot noPoint]
  rfl

def IsSpaces (spaces : List Char) : Prop := ∀ c ∈ spaces, c = ' ' ∨ c = '\n'

theorem isSpace_of_isSpaces {spaces : List Char} (only : IsSpaces spaces) :
    ∀ c ∈ spaces, isSpace c = true := by
  intro c mem
  rcases only c mem with rfl | rfl <;> rfl

def blanks (n : Nat) : List Char := List.replicate n ' '

theorem isSpaces_blanks (n : Nat) : IsSpaces (blanks n) :=
  fun _ mem => Or.inl (List.eq_of_mem_replicate mem)

theorem no_break_blanks (n : Nat) : '\n' ∉ blanks n :=
  fun mem => absurd (List.eq_of_mem_replicate mem) (by decide)

theorem countBreaks_blanks (n : Nat) : countBreaks (blanks n) = 0 := by
  induction n with
  | zero => rfl
  | succ n ih => exact ih

theorem foldSpaces_blanks (n : Nat) : foldSpaces (blanks n) = blanks n := by
  rw [foldSpaces, countBreaks_blanks]

def BeginsToken (c : Char) : Prop := isSpace c = false ∧ c ≠ '#'

theorem skipSpaces_placed {spaces : List Char} (keyAllowed : Bool) (only : IsSpaces spaces)
    (begins : BeginsToken (headChar rest)) :
    Scanner.skipSpaces false false keyAllowed (placed spot (spaces ++ rest)) =
      (keyAllowed || spaces.contains '\n', placed (spot.after spaces) rest) := by
  induction spaces generalizing spot keyAllowed with
  | nil =>
    obtain ⟨more, split⟩ := exists_placed_eq_cons spot rest
    obtain ⟨other, noComment⟩ := begins
    simp only [isSpace, isBlank, isBreak, Bool.or_eq_false_iff, beq_eq_false_iff_ne, ne_eq] at other
    rw [List.nil_append, Spot.after, List.foldl_nil, split, Scanner.skipSpaces]
    simp [isBreak, other, noComment]
  | cons c spaces ih =>
    obtain ⟨space, only⟩ := List.forall_mem_cons.1 only
    have ih := ih (spot.next c) (keyAllowed || c == '\n') only
    rw [List.cons_append, placed_cons, Scanner.skipSpaces]
    rcases space with rfl | rfl
    · simpa [isBreak, Spot.after] using ih
    · simpa [isBreak, Spot.after] using ih

theorem indentsByTab_placed {spaces : List Char} {indent : Nat} (only : IsSpaces spaces)
    (begins : isSpace (headChar rest) = false) :
    indentsByTab indent ((placed spot (spaces ++ rest)).takeWhile (isSpace ·.char)) = false := by
  have taken := (takeWhile_placed spot (isSpace_of_isSpaces only) begins).1
  rw [indentsByTab, List.any_eq_false]
  intro p mem
  have mem : p.char ∈ spaces := by
    rw [← taken]
    exact List.mem_map_of_mem (List.dropWhile_subset _ mem)
  rcases only _ mem with h | h <;> simp [h]

/-- A text is one word, or a word with spaces and another text after it. -/
theorem exists_word (text : List Char) :
    ' ' ∉ text ∨ ∃ word n rest, text = word ++ (blanks (n + 1) ++ rest) ∧ ' ' ∉ word ∧
      rest.head? ≠ some ' ' := by
  induction text with
  | nil => exact Or.inl List.not_mem_nil
  | cons c text ih =>
    by_cases space : c = ' '
    · subst space
      right
      by_cases begins : text.head? = some ' '
      · rcases ih with none | ⟨word, n, rest, rfl, none, ends⟩
        · exact absurd (List.mem_of_mem_head? begins) none
        · cases word with
          | nil => exact ⟨[], n + 1, rest, rfl, none, ends⟩
          | cons d word => cases begins; exact absurd List.mem_cons_self none
      · exact ⟨[], 0, text, rfl, List.not_mem_nil, begins⟩
    · rcases ih with none | ⟨word, n, rest, rfl, none, ends⟩
      · exact Or.inl (List.not_mem_cons_of_ne_of_not_mem (Ne.symm space) none)
      · exact Or.inr ⟨c :: word, n, rest, rfl,
          List.not_mem_cons_of_ne_of_not_mem (Ne.symm space) none, ends⟩

theorem words_induction {motive : List Char → Prop} (last : ∀ word, ' ' ∉ word → motive word)
    (more : ∀ word n rest, ' ' ∉ word → rest.head? ≠ some ' ' → motive rest →
      motive (word ++ (blanks (n + 1) ++ rest)))
    (text : List Char) : motive text := by
  induction h : text.length using Nat.strongRecOn generalizing text with
  | ind n ih =>
    rcases exists_word text with none | ⟨word, k, rest, rfl, none, ends⟩
    · exact last text none
    · refine more word k rest none ends (ih rest.length ?_ rest rfl)
      simp [blanks] at h
      omega

end ExperienceReplay.Yaml
