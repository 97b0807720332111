/-!
Text as characters with their places. A NUL ends the text, and one is always found at its end, so
that looking ahead needs no case of its own.
-/

namespace ExperienceReplay.Yaml

structure Placed where
  char : Char
  index : Nat
  line : Nat
  column : Nat
deriving DecidableEq

namespace Placed

/-- Only a line feed begins a new line. -/
def place (index line column : Nat) : List Char → List Placed
  | [] => [⟨'\x00', index, line, column⟩]
  | c :: rest =>
    ⟨c, index, line, column⟩ ::
      if c = '\n' then place (index + 1) (line + 1) 0 rest
      else place (index + 1) line (column + 1) rest

def ofText (text : List Char) : List Placed :=
  place 0 0 0 (text.takeWhile (· ≠ '\x00'))

def ending : Placed := ⟨'\x00', 0, 0, 0⟩

end Placed

def here : List Placed → Placed
  | [] => .ending
  | p :: _ => p

def peek (text : List Placed) : Char := (here text).char

def peekNext (text : List Placed) : Char := peek (text.drop 1)

def chars (text : List Placed) : List Char := text.map Placed.char

def isEnd (c : Char) : Bool := c == '\x00'

def isBreak (c : Char) : Bool := c == '\n' || c == '\r'

def isBlank (c : Char) : Bool := c == ' ' || c == '\t'

def isSpace (c : Char) : Bool := isBlank c || isBreak c

/-- Where a word ends: at a space or at the end of the text. -/
def isGap (c : Char) : Bool := isSpace c || isEnd c

def isLineEnd (c : Char) : Bool := isBreak c || isEnd c

def isFlowIndicator (c : Char) : Bool := [',', '[', ']', '\x7b', '\x7d'].contains c

def isNameChar (c : Char) : Bool := c.isAlphanum || c == '_' || c == '-'

def isHexDigit (c : Char) : Bool :=
  c.isDigit || ('a' ≤ c && c ≤ 'f') || ('A' ≤ c && c ≤ 'F')

def hexValue (c : Char) : Nat :=
  if c.isDigit then c.toNat - '0'.toNat
  else if c ≤ 'F' then c.toNat - 'A'.toNat + 10
  else c.toNat - 'a'.toNat + 10

/-- Three characters of a kind at the beginning of a line, alone in their word. -/
def isDocumentMark (mark : Char) (text : List Placed) : Bool :=
  (here text).column == 0 &&
    match text with
    | a :: b :: c :: rest => a.char == mark && b.char == mark && c.char == mark && isGap (peek rest)
    | _ => false

def atDocumentMark (text : List Placed) : Bool :=
  isDocumentMark '-' text || isDocumentMark '.' text

def spanWhile (holds : Char → Bool) (text : List Placed) : List Char × List Placed :=
  (chars (text.takeWhile (holds ·.char)), text.dropWhile (holds ·.char))

def dropWhile (holds : Char → Bool) (text : List Placed) : List Placed :=
  text.dropWhile (holds ·.char)

def endLine? (text : List Placed) : Option (List Placed) :=
  let text := dropWhile isBlank text
  let text := if peek text = '#' then dropWhile (!isLineEnd ·) text else text
  match text with
  | ⟨'\r', _, _, _⟩ :: ⟨'\n', _, _, _⟩ :: rest => some rest
  | p :: rest => if isBreak p.char then some rest else if isEnd p.char then some text else none
  | [] => some []

end ExperienceReplay.Yaml
