import ExperienceReplay.Decimal.Reading
import ExperienceReplay.Yaml.Node.Basic

/-!
What scalars stand for. Only plain scalars are more than text, unless a tag says what they are.
-/

namespace ExperienceReplay.Yaml

inductive Value where
  | null
  | boolean (value : Bool)
  | integer (value : Int)
  | number (value : Binary32)
  | text
deriving DecidableEq

def isWord (n : Int) : Bool := -(2 ^ 63) ≤ n && n < 2 ^ 64

/-- Integers of 128 bits, signed or not. Longer ones are read as floating point numbers. -/
def isDoubleWord (n : Int) : Bool := -(2 ^ 127) ≤ n && n < 2 ^ 128

def radixOf? : Char → Option Nat
  | 'x' => some 16
  | 'o' => some 8
  | 'b' => some 2
  | _ => none

def digitValue (c : Char) : Nat :=
  if c.isDigit then c.toNat - '0'.toNat
  else if 'a' ≤ c ∧ c ≤ 'f' then c.toNat - 'a'.toNat + 10
  else if 'A' ≤ c ∧ c ≤ 'F' then c.toNat - 'A'.toNat + 10
  else 16

def naturalIn? (radix : Nat) (digits : List Char) : Option Nat :=
  if digits ≠ [] ∧ digits.all (digitValue · < radix) then
    some (digits.foldl (fun n c => radix * n + digitValue c) 0)
  else none

/-- An integer of 64 bits with its radix in front. A number without a minus may have a plus on
either side of the radix. -/
def radixInteger? (text : List Char) : Option Int :=
  let (negative, rest) := Decimal.splitSign text
  match rest with
  | '0' :: mark :: digits => do
    let radix ← radixOf? mark
    let unsigned := match digits with
      | '+' :: more => if negative then digits else more
      | _ => digits
    let n ← naturalIn? radix unsigned
    let n : Int := if negative then -(n : Int) else n
    if isWord n then some n else none
  | _ => none

/-- A zero with more digits after it is no number. -/
def isZeroPadded (text : List Char) : Bool :=
  match (Decimal.splitSign text).2 with
  | '0' :: digit :: more => (digit :: more).all Char.isDigit
  | _ => false

def isInfinityName (text : List Char) : Bool :=
  [".inf", ".Inf", ".INF"].contains (String.ofList text)

def isNanName (text : List Char) : Bool :=
  [".nan", ".NaN", ".NAN"].contains (String.ofList text)

/-- Plain infinities have any number of plus signs or one minus sign. -/
def infinity? (text : List Char) : Option Binary32 :=
  if isInfinityName (text.dropWhile (· == '+')) then some (.infinite false)
  else match text with
    | '-' :: rest => if isInfinityName rest then some (.infinite true) else none
    | _ => none

def plainNumber? (text : List Char) : Option Binary32 :=
  if isNanName text then some .nan
  else
    (infinity? text).or
      (((Decimal.Double.read? text).filter Decimal.Double.isFinite).map Decimal.Double.toBinary32)

def plainInteger? (text : List Char) : Option Int :=
  (radixInteger? text).or
    (if isZeroPadded text then none else (Decimal.integer? text).filter isDoubleWord)

def plainValue (text : String) : Value :=
  match text with
  | "~" | "null" => .null
  | "true" => .boolean true
  | "false" => .boolean false
  | _ =>
    match plainInteger? text.toList with
    | some n => .integer n
    | none =>
      if isZeroPadded text.toList then .text
      else match plainNumber? text.toList with
        | some x => .number x
        | none => .text

def taggedValue? (suffix text : String) : Option Value :=
  match suffix with
  | "bool" =>
    if text = "true" then some (.boolean true)
    else if text = "false" then some (.boolean false)
    else none
  | "int" => ((Decimal.integer? text.toList).filter fun n => -(2 ^ 63) ≤ n ∧ n < 2 ^ 63).map .integer
  | "float" => (Decimal.Double.read? text.toList).map fun x => .number x.toBinary32
  | "null" => if text = "~" ∨ text = "null" then some .null else none
  | _ => some .text

def value? (text : String) (plain : Bool) : Option Tag → Option Value
  | none => some (if plain then plainValue text else .text)
  | some tag => if tag.handle = "!!" then taggedValue? tag.suffix text else some .text

end ExperienceReplay.Yaml
