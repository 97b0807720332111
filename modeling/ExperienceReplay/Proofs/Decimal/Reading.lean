import ExperienceReplay.Decimal.Style
import ExperienceReplay.Decimal.Reading
import ExperienceReplay.Proofs.Binary32.Rounding

/-!
Reading what was written. Main statement: a decimal that was written in positional notation or with
an exponent is read as the double precision number nearest to it; the zeros that the notation adds
make no difference.
-/

namespace ExperienceReplay.Decimal

theorem isDigit_of_mem_toDigits {n : Nat} {c : Char} (mem : c ∈ Nat.toDigits 10 n) :
    c.isDigit = true :=
  Nat.isDigit_of_mem_toDigits (by decide) (by decide) mem

theorem toDigits_mul_pow {n : Nat} (positive : 0 < n) (k : Nat) :
    Nat.toDigits 10 (n * 10 ^ k) = Nat.toDigits 10 n ++ List.replicate k '0' := by
  induction k with
  | zero => simp
  | succ k ih =>
    have more : 0 < n * 10 ^ k := Nat.mul_pos positive (Nat.pow_pos (by decide))
    have appended := Nat.toDigits_append_toDigits (b := 10) (d := 0) (by decide) more (by decide)
    rw [Nat.add_zero, ih, Nat.toDigits_zero] at appended
    rw [Nat.pow_succ, ← Nat.mul_assoc, Nat.mul_comm _ 10, ← appended, List.append_assoc,
      List.replicate_succ']

theorem natural?_toDigits (n : Nat) : natural? (Nat.toDigits 10 n) = some n := by
  rw [natural?, if_pos, Nat.ofDigitChars_ten_toDigits]
  exact ⟨Nat.toDigits_ne_nil, List.all_eq_true.2 fun _ mem => isDigit_of_mem_toDigits mem⟩

theorem splitSign_of_digit {c : Char} {rest : List Char} (digit : c.isDigit = true) :
    splitSign (c :: rest) = (false, c :: rest) := by
  unfold splitSign
  split
  next same => cases same; cases digit
  next same => cases same; cases digit
  next => rfl

theorem exists_toDigits_eq_cons (n : Nat) :
    ∃ c rest, Nat.toDigits 10 n = c :: rest ∧ c.isDigit = true := by
  obtain ⟨c, rest, split⟩ := List.exists_cons_of_ne_nil (Nat.toDigits_ne_nil (b := 10) (n := n))
  exact ⟨c, rest, split, isDigit_of_mem_toDigits (split ▸ List.mem_cons_self)⟩

theorem integer?_toDigits (n : Nat) : integer? (Nat.toDigits 10 n) = some (n : Int) := by
  obtain ⟨c, rest, split, digit⟩ := exists_toDigits_eq_cons n
  rw [integer?, split, splitSign_of_digit digit, ← split]
  simp [natural?_toDigits]

theorem integer?_minus_toDigits (n : Nat) :
    integer? ('-' :: Nat.toDigits 10 n) = some (-(n : Int)) := by
  simp [integer?, splitSign, natural?_toDigits]

def EndsDigits (rest : List Char) : Prop := ∀ c ∈ rest.head?, c.isDigit = false ∧ c ≠ '.'

theorem takeWhile_isDigit_append {digits rest : List Char}
    (all : ∀ c ∈ digits, c.isDigit = true) (ends : ∀ c ∈ rest.head?, c.isDigit = false) :
    (digits ++ rest).takeWhile Char.isDigit = digits ∧
      (digits ++ rest).dropWhile Char.isDigit = rest := by
  have none : rest.takeWhile Char.isDigit = [] ∧ rest.dropWhile Char.isDigit = rest := by
    cases rest with
    | nil => exact ⟨rfl, rfl⟩
    | cons c rest =>
      have other := ends c rfl
      exact ⟨List.takeWhile_cons_of_neg (by simp [other]),
        List.dropWhile_cons_of_neg (by simp [other])⟩
  rw [List.takeWhile_append_of_pos all, List.dropWhile_append_of_pos all, none.1, none.2,
    List.append_nil]
  exact ⟨rfl, rfl⟩

theorem unsigned?_whole {whole rest : List Char} (nonempty : whole ≠ [])
    (digits : ∀ c ∈ whole, c.isDigit = true) (ends : EndsDigits rest) :
    unsigned? (whole ++ rest) =
      (exponent? rest).map fun exponent => ⟨Nat.ofDigitChars 10 whole 0, exponent⟩ := by
  obtain ⟨taken, left⟩ := takeWhile_isDigit_append digits fun c mem => (ends c mem).1
  unfold unsigned?
  rw [taken, left]
  dsimp only
  split
  next after => exact absurd rfl (ends '.' rfl).2
  next =>
    rw [if_neg fun none => nonempty none.1, List.append_nil]
    simp

theorem unsigned?_point {whole fraction rest : List Char} (nonempty : whole ≠ [])
    (digits : ∀ c ∈ whole ++ fraction, c.isDigit = true)
    (ends : ∀ c ∈ rest.head?, c.isDigit = false) :
    unsigned? (whole ++ '.' :: (fraction ++ rest)) =
      (exponent? rest).map fun exponent =>
        ⟨Nat.ofDigitChars 10 (whole ++ fraction) 0, exponent - fraction.length⟩ := by
  obtain ⟨inWhole, inFraction⟩ := List.forall_mem_append.1 digits
  have point : ∀ c ∈ ('.' :: (fraction ++ rest)).head?, c.isDigit = false := by
    rintro c ⟨⟩
    rfl
  obtain ⟨taken, left⟩ := takeWhile_isDigit_append inWhole point
  obtain ⟨taken', left'⟩ := takeWhile_isDigit_append inFraction ends
  unfold unsigned?
  rw [taken, left]
  simp only [taken', left']
  rw [if_neg fun none => nonempty none.1]

structure IsPointed (text : List Char) : Prop where
  split : ∃ whole mark rest, text = whole ++ mark :: rest ∧ whole ≠ [] ∧
    (∀ c ∈ whole, c.isDigit = true) ∧ (mark = '.' ∨ mark = 'e')
  chars : ∀ c ∈ text, c.isDigit = true ∨ c = '.' ∨ c = 'e' ∨ c = '-'

/-- A text is a way to write a decimal, perhaps with more zeros at its end. -/
def Writes (text : List Char) (d : Decimal) : Prop :=
  IsPointed text ∧ ∃ k : Nat, unsigned? text = some ⟨d.digits * 10 ^ k, d.exponent - k⟩

theorem writes_of_point {whole fraction : List Char} {d : Decimal} (k : Nat) (nonempty : whole ≠ [])
    (digits : ∀ c ∈ whole ++ fraction, c.isDigit = true)
    (value : Nat.ofDigitChars 10 (whole ++ fraction) 0 = d.digits * 10 ^ k)
    (length : (fraction.length : Int) = k - d.exponent) :
    Writes (whole ++ '.' :: fraction) d := by
  obtain ⟨inWhole, inFraction⟩ := List.forall_mem_append.1 digits
  refine ⟨⟨⟨whole, '.', fraction, rfl, nonempty, inWhole, Or.inl rfl⟩, ?_⟩, k, ?_⟩
  · refine List.forall_mem_append.2 ⟨fun c mem => Or.inl (inWhole c mem), ?_⟩
    exact List.forall_mem_cons.2 ⟨Or.inr (Or.inl rfl), fun c mem => Or.inl (inFraction c mem)⟩
  · rw [← List.append_nil fraction, unsigned?_point nonempty digits (by simp), value, length]
    simp [exponent?]

theorem isDigit_of_mem_zeros {n : Nat} {c : Char} (mem : c ∈ List.replicate n '0') :
    c.isDigit = true := by
  rw [List.eq_of_mem_replicate mem]
  rfl

theorem writes_positional (d : Decimal) : Writes (d.positional ".0").toList d := by
  have all : ∀ c ∈ Nat.toDigits 10 d.digits, c.isDigit = true := fun c => isDigit_of_mem_toDigits
  have value : Nat.ofDigitChars 10 (Nat.toDigits 10 d.digits) 0 = d.digits :=
    Nat.ofDigitChars_ten_toDigits
  have nonempty : Nat.toDigits 10 d.digits ≠ [] := Nat.toDigits_ne_nil
  have point : d.point = (Nat.toDigits 10 d.digits).length + d.exponent := rfl
  unfold positional
  dsimp only
  generalize Nat.toDigits 10 d.digits = digits at all value nonempty point ⊢
  split
  next whole =>
    have text : (String.ofList (digits ++ List.replicate d.exponent.toNat '0') ++ ".0").toList =
        (digits ++ List.replicate d.exponent.toNat '0') ++ '.' :: ['0'] := by simp
    rw [text]
    refine writes_of_point (d.exponent.toNat + 1) (by simp [nonempty]) ?_ ?_ ?_
    · simp only [List.forall_mem_append]
      exact ⟨⟨all, fun c => isDigit_of_mem_zeros⟩, by simp⟩
    · rw [List.append_assoc, ← List.replicate_succ', Nat.ofDigitChars_append, value,
        Nat.ofDigitChars_replicate_zero]
      ring
    · simp
      omega
  next negative =>
    split
    next inside =>
      rw [String.toList_ofList]
      refine writes_of_point 0 ?_ ?_ ?_ ?_
      · intro none
        rcases List.take_eq_nil_iff.1 none with zero | nil
        · omega
        · exact nonempty nil
      · rwa [List.take_append_drop]
      · rw [List.take_append_drop, value, Nat.pow_zero, Nat.mul_one]
      · rw [List.length_drop]
        omega
    next =>
      have text : ("0." ++ String.ofList (List.replicate (-d.point).toNat '0' ++ digits)).toList =
          ['0'] ++ '.' :: (List.replicate (-d.point).toNat '0' ++ digits) := by simp
      rw [text]
      refine writes_of_point 0 (by simp) ?_ ?_ ?_
      · simp only [List.forall_mem_append]
        exact ⟨by simp, fun c => isDigit_of_mem_zeros, all⟩
      · rw [← List.append_assoc, ← List.replicate_one, List.replicate_append_replicate,
          Nat.ofDigitChars_append, Nat.ofDigitChars_replicate_zero]
        simp [value]
      · simp
        omega

def exponentText (exponent : Int) : List Char :=
  'e' :: ((if exponent < 0 then ['-'] else []) ++ Nat.toDigits 10 exponent.natAbs)

theorem exponent?_exponentText (exponent : Int) :
    exponent? (exponentText exponent) = some exponent := by
  simp only [exponent?, exponentText, true_or, if_true]
  split
  · rw [List.singleton_append, integer?_minus_toDigits]
    congr 1
    omega
  · rw [List.nil_append, integer?_toDigits]
    congr 1
    omega

theorem endsDigits_exponentText (exponent : Int) : EndsDigits (exponentText exponent) := by
  rintro c ⟨⟩
  decide

theorem chars_exponentText {exponent : Int} {c : Char} (mem : c ∈ exponentText exponent) :
    c.isDigit = true ∨ c = '.' ∨ c = 'e' ∨ c = '-' := by
  unfold exponentText at mem
  rcases List.mem_cons.1 mem with rfl | mem
  · simp
  rcases List.mem_append.1 mem with sign | digit
  · split at sign <;> simp_all
  · exact Or.inl (isDigit_of_mem_toDigits digit)

theorem toList_scientific (d : Decimal) :
    d.scientific.toList =
      (Nat.toDigits 10 d.digits).take 1 ++
        (if (Nat.toDigits 10 d.digits).length ≤ 1 then []
          else '.' :: (Nat.toDigits 10 d.digits).drop 1) ++
        exponentText (d.point - 1) := by
  unfold scientific exponentText
  simp [Nat.repr_eq_ofList_toDigits, apply_ite String.toList]

theorem writes_scientific (d : Decimal) : Writes d.scientific.toList d := by
  have all : ∀ c ∈ Nat.toDigits 10 d.digits, c.isDigit = true := fun c => isDigit_of_mem_toDigits
  have value : Nat.ofDigitChars 10 (Nat.toDigits 10 d.digits) 0 = d.digits :=
    Nat.ofDigitChars_ten_toDigits
  have nonempty : 0 < (Nat.toDigits 10 d.digits).length :=
    List.length_pos_iff.2 Nat.toDigits_ne_nil
  have point : d.point = (Nat.toDigits 10 d.digits).length + d.exponent := rfl
  rw [toList_scientific]
  generalize Nat.toDigits 10 d.digits = digits at all value nonempty point ⊢
  split
  next single =>
    rw [List.take_of_length_le single, List.append_nil]
    refine ⟨⟨⟨digits, 'e', _, rfl, List.length_pos_iff.1 nonempty, all, Or.inr rfl⟩, ?_⟩, 0, ?_⟩
    · exact List.forall_mem_append.2 ⟨fun c mem => Or.inl (all c mem), fun c => chars_exponentText⟩
    · rw [unsigned?_whole (List.length_pos_iff.1 nonempty) all (endsDigits_exponentText _),
        exponent?_exponentText, value]
      simp
      omega
  next several =>
    have split : ∀ c ∈ digits.take 1 ++ digits.drop 1, c.isDigit = true := by
      rwa [List.take_append_drop]
    have first : digits.take 1 ≠ [] := by
      rw [Ne, List.take_eq_nil_iff]
      rintro (zero | rfl)
      · cases zero
      · exact several (Nat.zero_le _)
    rw [List.append_assoc, List.cons_append]
    obtain ⟨inWhole, inFraction⟩ := List.forall_mem_append.1 split
    refine ⟨⟨⟨digits.take 1, '.', _, rfl, first, inWhole, Or.inl rfl⟩, ?_⟩, 0, ?_⟩
    · rw [List.forall_mem_append, List.forall_mem_cons, List.forall_mem_append]
      exact ⟨fun c mem => Or.inl (inWhole c mem), Or.inr (Or.inl rfl),
        fun c mem => Or.inl (inFraction c mem), fun c => chars_exponentText⟩
    · rw [unsigned?_point first split fun c mem => (endsDigits_exponentText _ c mem).1,
        exponent?_exponentText, List.take_append_drop, value, List.length_drop]
      simp
      omega

theorem shifted_exponents (exponent : Int) (k : Nat) :
    k + (exponent - k).toNat + (-exponent).toNat = exponent.toNat + (-(exponent - k)).toNat := by
  omega

theorem doubleUnits?_shift (d : Decimal) (k : Nat) :
    doubleUnits? ⟨d.digits * 10 ^ k, d.exponent - k⟩ = d.doubleUnits? := by
  unfold doubleUnits?
  rcases Nat.eq_zero_or_pos d.digits with zero | positive
  · simp [zero]
  have more : 0 < d.digits * 10 ^ k := Nat.mul_pos positive (Nat.pow_pos (by decide))
  have point : ((Nat.toDigits 10 (d.digits * 10 ^ k)).length : Int) + (d.exponent - k) =
      (Nat.toDigits 10 d.digits).length + d.exponent := by
    rw [toDigits_mul_pow positive, List.length_append, List.length_replicate]
    omega
  have units : Rounding.toBits 53 (d.digits * 10 ^ k * 10 ^ (d.exponent - k).toNat * 2 ^ 1074)
      (10 ^ (-(d.exponent - k)).toNat) =
      Rounding.toBits 53 (d.digits * 10 ^ d.exponent.toNat * 2 ^ 1074)
        (10 ^ (-d.exponent).toNat) := by
    refine Rounding.toBits_congr (by decide) (Nat.pow_pos (by decide)) (Nat.pow_pos (by decide)) ?_
    generalize 2 ^ 1074 = one
    calc d.digits * 10 ^ k * 10 ^ (d.exponent - k).toNat * one * 10 ^ (-d.exponent).toNat
        = d.digits * one * 10 ^ (k + (d.exponent - k).toNat + (-d.exponent).toNat) := by
          rw [Nat.pow_add, Nat.pow_add]; ring
      _ = d.digits * one * 10 ^ (d.exponent.toNat + (-(d.exponent - k)).toNat) := by
          rw [shifted_exponents]
      _ = d.digits * 10 ^ d.exponent.toNat * one * 10 ^ (-(d.exponent - k)).toNat := by
          rw [Nat.pow_add]; ring
  dsimp only
  rw [if_neg more.ne', if_neg positive.ne', point, units]

theorem splitSign_of_writes {text : List Char} {d : Decimal} (writes : Writes text d) :
    splitSign text = (false, text) := by
  obtain ⟨whole, mark, rest, rfl, nonempty, digits, -⟩ := writes.1.split
  obtain ⟨c, more, rfl⟩ := List.exists_cons_of_ne_nil nonempty
  exact splitSign_of_digit (digits c List.mem_cons_self)

def signed (negative : Bool) (text : List Char) : List Char :=
  if negative then '-' :: text else text

theorem splitSign_signed {text : List Char} {d : Decimal} (writes : Writes text d)
    (negative : Bool) : splitSign (signed negative text) = (negative, text) := by
  cases negative
  · exact splitSign_of_writes writes
  · rfl

theorem read?_signed {text : List Char} {d : Decimal} {units : Nat} (writes : Writes text d)
    (finite : d.doubleUnits? = some units) (negative : Bool) :
    Double.read? (signed negative text) = some (.finite negative units) := by
  obtain ⟨k, value⟩ := writes.2
  simp only [Double.read?, splitSign_signed writes, value, doubleUnits?_shift, finite]

end ExperienceReplay.Decimal
