import ExperienceReplay.Decimal.Reading
import ExperienceReplay.Decimal.Style

/-!
How scalars are written in YAML.
-/

namespace ExperienceReplay.Yaml

/-- Numbers keep a point or an exponent; what is positional has at most 13 digits before the point
and at most five zeros after it. -/
def numberStyle : Decimal.Style where
  tie := .even
  positionalPoints := some (-6, 13)
  whole := ".0"
  nan := ".nan"
  infinity := ".inf"

def writeNumber (x : Binary32) : String := numberStyle.write x

def writeBool (b : Bool) : String := if b then "true" else "false"

/-- Words that other readers take for booleans or for null. -/
def reservedWords : List String :=
  ["yes", "Yes", "YES", "no", "No", "NO", "on", "On", "ON", "off", "Off", "OFF",
    "true", "True", "TRUE", "false", "False", "FALSE", "null", "Null", "NULL", "~"]

def isIndicator (c : Char) : Bool := "&*?|-<>=!%@.".toList.contains c

def isSpecial (c : Char) : Bool :=
  ":\x7b\x7d[],#\x60\"'\\\t\n\r".toList.contains c || c ≤ '\x06' ||
    ('\x0e' ≤ c && c ≤ '\x1a') || ('\x1c' ≤ c && c ≤ '\x1f')

def needsQuotes (text : String) : Bool :=
  let cs := text.toList
  cs.isEmpty || cs.head? == some ' ' || cs.getLast? == some ' ' || cs.head?.any isIndicator ||
    cs.any isSpecial || reservedWords.contains text || ['0', 'x'].isPrefixOf cs ||
    (Decimal.Double.read? cs).isSome

def codeEscape (c : Char) : List Char :=
  let digits := Nat.toDigits 16 c.toNat
  '\\' :: 'u' :: (List.replicate (4 - digits.length) '0' ++ digits)

def quotedChar (c : Char) : List Char :=
  match c with
  | '"' => ['\\', '"']
  | '\\' => ['\\', '\\']
  | '\x08' => ['\\', 'b']
  | '\t' => ['\\', 't']
  | '\n' => ['\\', 'n']
  | '\x0c' => ['\\', 'f']
  | '\r' => ['\\', 'r']
  | c => if c < ' ' ∨ c = '\x7f' then codeEscape c else [c]

def writeText (text : String) : String :=
  if needsQuotes text then String.ofList ('"' :: (text.toList.flatMap quotedChar ++ ['"']))
  else text

end ExperienceReplay.Yaml
