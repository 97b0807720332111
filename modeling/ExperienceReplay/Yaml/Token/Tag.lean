import ExperienceReplay.Yaml.Placed
import ExperienceReplay.Yaml.Token.Basic

/-!
The text of tags, anchors, aliases and directives.
-/

namespace ExperienceReplay.Yaml

def anchorName? (text : List Placed) : Option (String × List Placed) :=
  let (name, rest) := spanWhile isNameChar (text.drop 1)
  let c := peek rest
  if name ≠ [] ∧ (isGap c ∨ c ∈ ['?', ':', ',', ']', '\x7d', '%', '@', '\x60']) then
    some (String.ofList name, rest)
  else none

/-- An exclamation mark, a name, and an exclamation mark if one follows. -/
def tagHandle? (text : List Placed) : Option (List Char × List Placed) :=
  if peek text = '!' then
    let (name, rest) := spanWhile isNameChar (text.drop 1)
    if peek rest = '!' then some ('!' :: (name ++ ['!']), rest.drop 1) else some ('!' :: name, rest)
  else none

def isTagChar (c : Char) : Bool :=
  isNameChar c || ";/?:@&=+$,.!~*'()[]%".toList.contains c

def octet? (text : List Placed) : Option (Nat × List Placed) :=
  match chars (text.take 3) with
  | ['%', high, low] =>
    if isHexDigit high ∧ isHexDigit low then
      some (16 * hexValue high + hexValue low, text.drop 3)
    else none
  | _ => none

def octetCount? (octet : Nat) : Option Nat :=
  if octet < 0x80 then some 1
  else if octet < 0xc0 then none
  else if octet < 0xe0 then some 2
  else if octet < 0xf0 then some 3
  else if octet < 0xf8 then some 4
  else none

def moreOctets : Nat → Nat → List Placed → Option (Nat × List Placed)
  | 0, code, text => some (code, text)
  | n + 1, code, text => do
    let (octet, rest) ← octet? text
    if octet / 64 = 2 then moreOctets n (256 * code + octet) rest else none

/-- A character written as octets. The octets are joined as they are. -/
def octets? (text : List Placed) : Option (Char × List Placed) := do
  let (octet, rest) ← octet? text
  let count ← octetCount? octet
  let (code, rest) ← moreOctets (count - 1) octet rest
  if code.isValidChar then some (Char.ofNat code, rest) else none

def tagChars : Nat → List Placed → Option (List Char × List Placed)
  | 0, text => some ([], text)
  | fuel + 1, text =>
    let c := peek text
    if c = '%' then do
      let (c, rest) ← octets? text
      let (word, rest) ← tagChars fuel rest
      some (c :: word, rest)
    else if isTagChar c then do
      let (word, rest) ← tagChars fuel (text.drop 1)
      some (c :: word, rest)
    else some ([], text)

/-- A tag between angle brackets has no handle; a handle with one mark belongs to what follows. -/
def tag? (text : List Placed) : Option (Tag × List Placed) := do
  let (tag, rest) ←
    if peekNext text = '<' then do
      let (word, rest) ← tagChars text.length (text.drop 2)
      if word = [] ∨ peek rest ≠ '>' then none
      else some (Tag.mk "" (String.ofList word), rest.drop 1)
    else do
      let (handle, rest) ← tagHandle? text
      let (word, rest) ← tagChars text.length rest
      if 2 ≤ handle.length ∧ handle.getLast? = some '!' then
        if word = [] then none
        else some (Tag.mk (String.ofList handle) (String.ofList word), rest)
      else
        let word := handle.drop 1 ++ word
        if word = [] then some (Tag.mk "" "!", rest)
        else some (Tag.mk "!" (String.ofList word), rest)
  if isGap (peek rest) then some (tag, rest) else none

def versionNumber? (text : List Placed) : Option (List Placed) :=
  let (digits, rest) := spanWhile Char.isDigit text
  if 1 ≤ digits.length ∧ digits.length ≤ 9 then some rest else none

def version? (text : List Placed) : Option (List Placed) := do
  let rest ← versionNumber? (dropWhile isBlank text)
  if peek rest = '.' then versionNumber? (rest.drop 1) else none

def tagDefinition? (text : List Placed) : Option (List Placed) := do
  let (handle, rest) ← tagHandle? (dropWhile isBlank text)
  if handle.length ≠ 1 ∧ handle.getLast? ≠ some '!' then none
  let text := dropWhile isBlank rest
  let (word, rest) ← tagChars text.length text
  if word ≠ [] ∧ isGap (peek rest) then some rest else none

/-- Passes a directive, whose line begins with a percent sign. Unknown directives are passed over. -/
def directive? (text : List Placed) : Option (List Placed) := do
  let (name, rest) := spanWhile isNameChar (text.drop 1)
  if name = [] ∨ !isGap (peek rest) then none
  let rest ← match String.ofList name with
    | "YAML" => version? rest
    | "TAG" => tagDefinition? rest
    | _ => some (dropWhile (!isLineEnd ·) rest)
  endLine? rest

end ExperienceReplay.Yaml
