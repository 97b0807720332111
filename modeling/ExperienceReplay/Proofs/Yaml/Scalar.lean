import ExperienceReplay.Proofs.Decimal.Shortest
import ExperienceReplay.Yaml.Scalar
import ExperienceReplay.Yaml.Written
import Mathlib.Data.List.Basic

/-!
What plain scalars stand for. Main statements: a natural number stands for itself, and a written
number for what is read of its shortest decimal.
-/

namespace ExperienceReplay.Yaml

open Decimal

theorem digitChar_ne_zero : ∀ n < 10, 0 < n → n.digitChar ≠ '0' := by
  decide

theorem head?_toDigits_ne_zero {n : Nat} (positive : 0 < n) :
    (Nat.toDigits 10 n).head? ≠ some '0' := by
  induction n using Nat.strongRecOn with
  | ind n ih =>
    rcases Nat.lt_or_ge n 10 with single | several
    · rw [Nat.toDigits_of_lt_base single, List.head?_singleton, Ne, Option.some_inj]
      exact digitChar_ne_zero n single positive
    · rw [Nat.toDigits_of_base_le (by decide) several,
        List.head?_append_of_ne_nil _ Nat.toDigits_ne_nil]
      exact ih _ (Nat.div_lt_self positive (by decide)) (Nat.div_pos several (by decide))

theorem isZeroPadded_toDigits (n : Nat) : isZeroPadded (Nat.toDigits 10 n) = false := by
  obtain ⟨c, rest, split, digit⟩ := exists_toDigits_eq_cons n
  rcases Nat.eq_zero_or_pos n with rfl | positive
  · rfl
  have nonzero := head?_toDigits_ne_zero positive
  rw [split] at nonzero ⊢
  rw [isZeroPadded, splitSign_of_digit digit]
  split
  next padded => exact absurd (congrArg List.head? padded) nonzero
  next => rfl

theorem radixOf?_of_digit {c : Char} (digit : c.isDigit = true) : radixOf? c = none := by
  unfold radixOf?
  split <;> first | rfl | cases digit

/-- A number has a radix in front only if a letter follows its first digit. -/
theorem radixInteger?_eq_none {text rest : List Char} {negative : Bool}
    (split : splitSign text = (negative, rest)) (none : ∀ c ∈ rest, radixOf? c = none) :
    radixInteger? text = .none := by
  rw [radixInteger?, split]
  dsimp only
  split
  next mark digits => rw [none mark (by simp)]; rfl
  next => rfl

theorem plainInteger?_toDigits {n : Nat} (small : n < 2 ^ 64) :
    plainInteger? (Nat.toDigits 10 n) = some (n : Int) := by
  obtain ⟨c, rest, split, digit⟩ := exists_toDigits_eq_cons n
  have unsigned : splitSign (Nat.toDigits 10 n) = (false, Nat.toDigits 10 n) := by
    rw [split, splitSign_of_digit digit]
  have word : isDoubleWord n = true := by
    simp only [isDoubleWord, Bool.and_eq_true, decide_eq_true_eq]
    omega
  rw [plainInteger?, radixInteger?_eq_none unsigned fun c mem =>
      radixOf?_of_digit (isDigit_of_mem_toDigits mem), isZeroPadded_toDigits, integer?_toDigits]
  simp [Option.filter, word]

theorem not_mem_of_digit {c : Char} (digit : c.isDigit = true) : c ∉ ['~', 'n', 't', 'f'] := by
  intro mem
  simp only [List.mem_cons, List.not_mem_nil, or_false] at mem
  rcases mem with rfl | rfl | rfl | rfl <;> cases digit

theorem plainValue_eq {text : String} {c : Char} (first : text.toList.head? = some c)
    (other : c ∉ ['~', 'n', 't', 'f']) :
    plainValue text =
      match plainInteger? text.toList with
      | some n => .integer n
      | none =>
        if isZeroPadded text.toList then .text
        else match plainNumber? text.toList with
          | some x => .number x
          | none => .text := by
  unfold plainValue
  split
  iterate 4
    cases first
    exact absurd (by decide) other
  rfl

theorem plainValue_repr {n : Nat} (small : n < 2 ^ 64) : plainValue n.repr = .integer n := by
  obtain ⟨c, rest, split, digit⟩ := exists_toDigits_eq_cons n
  have digits : n.repr.toList = Nat.toDigits 10 n := by
    rw [Nat.repr_eq_ofList_toDigits, String.toList_ofList]
  have first : n.repr.toList.head? = some c := by
    rw [digits, split]
    rfl
  rw [plainValue_eq first (not_mem_of_digit digit), digits, plainInteger?_toDigits small]

theorem contains_eq_false_of_point {names : List String} {c : Char} {rest : List Char}
    (points : ∀ name ∈ names, name.toList.head? = some '.') (other : c ≠ '.') :
    names.contains (String.ofList (c :: rest)) = false := by
  rw [Bool.eq_false_iff]
  intro contains
  have := points _ (List.contains_iff_mem.1 contains)
  rw [String.toList_ofList, List.head?_cons, Option.some_inj] at this
  exact other this

theorem isInfinityName_eq_false {c : Char} {rest : List Char} (other : c ≠ '.') :
    isInfinityName (c :: rest) = false :=
  contains_eq_false_of_point (by decide) other

theorem isNanName_eq_false {c : Char} {rest : List Char} (other : c ≠ '.') :
    isNanName (c :: rest) = false :=
  contains_eq_false_of_point (by decide) other

section

variable {text : List Char} {d : Decimal}

theorem exists_eq_cons_of_writes (writes : Writes text d) :
    ∃ c rest, text = c :: rest ∧ c.isDigit = true := by
  obtain ⟨whole, mark, rest, rfl, nonempty, digits, -⟩ := writes.1.split
  obtain ⟨c, more, rfl⟩ := List.exists_cons_of_ne_nil nonempty
  exact ⟨c, _, rfl, digits c List.mem_cons_self⟩

theorem exists_mark_of_writes (writes : Writes text d) :
    ∃ mark ∈ text, mark.isDigit = false := by
  obtain ⟨whole, mark, rest, rfl, -, -, mark⟩ := writes.1.split
  refine ⟨_, List.mem_append_right _ List.mem_cons_self, ?_⟩
  rcases mark with rfl | rfl <;> rfl

theorem natural?_of_writes (writes : Writes text d) : natural? text = none := by
  obtain ⟨mark, mem, other⟩ := exists_mark_of_writes writes
  refine if_neg fun digits => ?_
  rw [List.all_eq_true.1 digits.2 mark mem] at other
  cases other

theorem isZeroPadded_signed (writes : Writes text d) (negative : Bool) :
    isZeroPadded (signed negative text) = false := by
  obtain ⟨mark, mem, other⟩ := exists_mark_of_writes writes
  rw [isZeroPadded, splitSign_signed writes]
  dsimp only
  split
  next digit more =>
    rw [Bool.eq_false_iff]
    intro digits
    rcases List.mem_cons.1 mem with rfl | mem
    · cases other
    · rw [List.all_eq_true.1 digits mark mem] at other
      cases other
  next => rfl

theorem plainInteger?_signed (writes : Writes text d) (negative : Bool) :
    plainInteger? (signed negative text) = none := by
  have radix : ∀ c ∈ text, radixOf? c = none := by
    intro c mem
    rcases writes.1.chars c mem with digit | rfl | rfl | rfl
    · exact radixOf?_of_digit digit
    all_goals rfl
  have integer : integer? (signed negative text) = none := by
    simp [integer?, splitSign_signed writes, natural?_of_writes writes]
  rw [plainInteger?, radixInteger?_eq_none (splitSign_signed writes negative) radix,
    isZeroPadded_signed writes, integer]
  rfl

theorem plainNumber?_signed {units : Nat} (writes : Writes text d)
    (finite : d.doubleUnits? = some units) (negative : Bool) :
    plainNumber? (signed negative text) = some (Double.finite negative units).toBinary32 := by
  obtain ⟨c, rest, rfl, digit⟩ := exists_eq_cons_of_writes writes
  have other : c ≠ '.' ∧ c ≠ '+' ∧ c ≠ '-' := by
    refine ⟨?_, ?_, ?_⟩ <;> rintro rfl <;> cases digit
  have named : isNanName (signed negative (c :: rest)) = false ∧
      infinity? (signed negative (c :: rest)) = none := by
    cases negative
    · refine ⟨isNanName_eq_false other.1, ?_⟩
      rw [signed, if_neg (by decide), infinity?, List.dropWhile_cons_of_neg (by simp [other]),
        isInfinityName_eq_false other.1, if_neg (by decide)]
      intro _ minus
      exact other.2.2 (List.cons.inj minus).1
    · refine ⟨isNanName_eq_false (by decide), ?_⟩
      rw [signed, if_pos rfl, infinity?, List.dropWhile_cons_of_neg (by decide),
        isInfinityName_eq_false (by decide), isInfinityName_eq_false other.1]
      rfl
  rw [plainNumber?, named.1, named.2, read?_signed writes finite]
  rfl

theorem plainValue_signed {written : String} {units : Nat} (writes : Writes text d)
    (finite : d.doubleUnits? = some units) {negative : Bool}
    (h : written.toList = signed negative text) :
    plainValue written = .number (Double.finite negative units).toBinary32 := by
  obtain ⟨c, rest, split, digit⟩ := exists_eq_cons_of_writes writes
  have first : ∃ c, written.toList.head? = some c ∧ c ∉ ['~', 'n', 't', 'f'] := by
    rw [h, split]
    cases negative
    · exact ⟨c, rfl, not_mem_of_digit digit⟩
    · exact ⟨'-', rfl, by decide⟩
  obtain ⟨_, first, other⟩ := first
  rw [plainValue_eq first other, h, plainInteger?_signed writes, isZeroPadded_signed writes,
    plainNumber?_signed writes finite]
  rfl

end

theorem writes_writeMagnitude (style : Style) (whole : style.whole = ".0")
    (magnitude : Binary32.Magnitude) :
    Writes (style.writeMagnitude magnitude).toList (shortest style.tie magnitude) := by
  unfold Style.writeMagnitude
  dsimp only
  split
  · rw [whole]
    exact writes_positional _
  · exact writes_scientific _

theorem toList_writeNumber_finite (negative : Bool) (magnitude : Binary32.Magnitude) :
    (writeNumber (.finite negative magnitude)).toList =
      signed negative (numberStyle.writeMagnitude magnitude).toList := by
  cases negative <;> simp [writeNumber, Style.write, signed]

/-- What is read where a number was written: of a finite number its shortest decimal, rounded to
double precision and then to binary32. -/
def reread : Binary32 → Binary32
  | .finite negative magnitude => (Double.finite negative (readUnits magnitude)).toBinary32
  | x => x

theorem plainValue_writeNumber (x : Binary32) :
    plainValue (writeNumber x) = .number (reread x) := by
  cases x with
  | nan => rfl
  | infinite negative => cases negative <;> rfl
  | finite negative magnitude =>
    exact plainValue_signed (writes_writeMagnitude numberStyle rfl magnitude)
      (doubleUnits?_shortest magnitude) (toList_writeNumber_finite negative magnitude)

end ExperienceReplay.Yaml
