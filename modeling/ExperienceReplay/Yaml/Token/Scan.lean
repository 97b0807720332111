import ExperienceReplay.Yaml.Token.Scalar
import ExperienceReplay.Yaml.Token.Tag

/-!
The tokens of a YAML text. A mapping key shows itself only by the colon after it; so every token
that can be a key is preceded by an open slot, which the colon fills. Tokens are only ever added at
the end.
-/

namespace ExperienceReplay.Yaml

/-- A token, or the slot before a possible key. -/
inductive Entry where
  | token (token : Token)
  | openSlot
  /-- A key follows; it may be the first of a block mapping. -/
  | keySlot (opensMapping : Bool)

def Entry.tokens : Entry → List Token
  | token t => [t]
  | openSlot => []
  | keySlot opensMapping => if opensMapping then [.blockMappingStart, .key] else [.key]

/-- A token that can still turn out to be a key. -/
structure PossibleKey where
  place : Placed
  /-- The text is malformed if it is no key. -/
  required : Bool
  slot : Nat

/-- A key has its colon on the same line, and not too far away. -/
def PossibleKey.isPast (key : PossibleKey) (now : Placed) : Bool :=
  key.place.line < now.line || key.place.index + 1024 < now.index

structure Scanner where
  text : List Placed
  entries : Array Entry
  /-- The columns of the open block collections, innermost first. -/
  indents : List Nat
  keyAllowed : Bool
  key : Option PossibleKey
  /-- The possible keys around each of the open flow collections, innermost first. -/
  outer : List (Option PossibleKey)
  /-- Where the last quoted scalar ended; a colon may follow it without a space. -/
  quotedUpTo : Nat

namespace Scanner

def ofText (text : List Placed) : Scanner := ⟨text, #[], [], true, none, [], 0⟩

def inFlow (s : Scanner) : Bool := !s.outer.isEmpty

def column (s : Scanner) : Nat := (here s.text).column

def push (s : Scanner) (token : Token) : Scanner :=
  { s with entries := s.entries.push (.token token) }

def skip (s : Scanner) (n : Nat) : Scanner := { s with text := s.text.drop n }

def dropKey? (s : Scanner) : Option Scanner :=
  if s.key.any PossibleKey.required then none else some { s with key := none }

/-- Notes that the next token may be a key. In a flow collection it must be one if it stands in the
column of the block around it. -/
def saveKey? (s : Scanner) : Option Scanner :=
  if s.keyAllowed then do
    let required := s.inFlow && s.indents.head? == some s.column
    let key := { place := here s.text, required, slot := s.entries.size }
    let s ← s.dropKey?
    return { s with entries := s.entries.push .openSlot, key := some key }
  else some s

def dropPastKeys? (s : Scanner) : Option Scanner := do
  let keep (key : Option PossibleKey) : Option (Option PossibleKey) :=
    match key with
    | some key =>
      if key.isPast (here s.text) then (if key.required then none else some none)
      else some (some key)
    | none => some none
  return { s with key := ← keep s.key, outer := ← s.outer.mapM keep }

/-- Closes the block collections to the right of a column, or all of them. -/
def unroll (s : Scanner) (column : Option Nat) : Scanner :=
  if s.inFlow then s
  else
    let closes (indent : Nat) : Bool := column.all (· < indent)
    let closed := (s.indents.takeWhile closes).map fun _ => Entry.token .blockEnd
    { s with entries := s.entries ++ closed, indents := s.indents.dropWhile closes }

def opensAt (s : Scanner) (column : Nat) : Bool :=
  !s.inFlow && s.indents.head?.all (· < column)

def roll (s : Scanner) (column : Nat) (token : Token) : Scanner :=
  if s.opensAt column then { s.push token with indents := column :: s.indents } else s

/-- Passes spaces, line breaks and comments. A line break outside of flow collections allows a key;
tabs are passed only where no key can begin. -/
def skipSpaces (inFlow : Bool) : Bool → Bool → List Placed → Bool × List Placed
  | _, keyAllowed, [] => (keyAllowed, [])
  | inComment, keyAllowed, p :: rest =>
    if isBreak p.char then skipSpaces inFlow false (keyAllowed || !inFlow) rest
    else if inComment && !isEnd p.char then skipSpaces inFlow true keyAllowed rest
    else if p.char = ' ' then skipSpaces inFlow false keyAllowed rest
    else if p.char = '\t' ∧ (inFlow ∨ !keyAllowed) then skipSpaces inFlow false keyAllowed rest
    else if p.char = '#' then skipSpaces inFlow true keyAllowed rest
    else (keyAllowed, p :: rest)

def toNextToken? (s : Scanner) : Option Scanner := do
  let (keyAllowed, text) := skipSpaces s.inFlow false s.keyAllowed s.text
  let s ← { s with keyAllowed, text }.dropPastKeys?
  return s.unroll (some s.column)

def topLevel? (s : Scanner) (token : Token) (rest : List Placed) : Option Scanner := do
  let s ← (s.unroll none).dropKey?
  return { s.push token with keyAllowed := false, text := rest }

def flowStart? (s : Scanner) (token : Token) : Option Scanner := do
  let s ← s.saveKey?
  if 255 ≤ s.outer.length then none
  return ({ s with key := none, outer := s.key :: s.outer, keyAllowed := true }.push token).skip 1

def flowEnd? (s : Scanner) (token : Token) : Option Scanner := do
  let s ← s.dropKey?
  let s := match s.outer with
    | key :: outer => { s with key, outer }
    | [] => s
  return ({ s with keyAllowed := false }.push token).skip 1

def flowEntry? (s : Scanner) : Option Scanner := do
  let s ← s.dropKey?
  return ({ s with keyAllowed := true }.push .flowEntry).skip 1

def blockEntry? (s : Scanner) : Option Scanner := do
  if s.inFlow || !s.keyAllowed then none
  let s ← (s.roll s.column .blockSequenceStart).dropKey?
  return ({ s with keyAllowed := true }.push .blockEntry).skip 1

def explicitKey? (s : Scanner) : Option Scanner := do
  if !s.inFlow && !s.keyAllowed then none
  let s ← (s.roll s.column .blockMappingStart).dropKey?
  return ({ s with keyAllowed := !s.inFlow }.push .key).skip 1

/-- A colon fills the slot of the possible key, or else follows an explicit or an empty key. -/
def value? (s : Scanner) : Option Scanner :=
  match s.key with
  | some key =>
    let opens := s.opensAt key.place.column
    let s := { s with
      entries := s.entries.setIfInBounds key.slot (.keySlot opens)
      indents := if opens then key.place.column :: s.indents else s.indents
      key := none
      keyAllowed := false }
    some ((s.push .value).skip 1)
  | none =>
    if !s.inFlow && !s.keyAllowed then none
    else
      let s := s.roll s.column .blockMappingStart
      some (({ s with keyAllowed := !s.inFlow }.push .value).skip 1)

def keyLike? {α : Type} (s : Scanner) (read? : List Placed → Option (α × List Placed))
    (token : α → Token) : Option Scanner := do
  let s ← s.saveKey?
  let (value, rest) ← read? s.text
  return { s.push (token value) with keyAllowed := false, text := rest }

def quoted? (s : Scanner) : Option Scanner := do
  let s ← s.keyLike? quotedScalar? (.scalar · false)
  return { s with quotedUpTo := (here s.text).index }

def block? (s : Scanner) : Option Scanner := do
  let s ← s.keyLike? (blockScalar? s.indents.head?) (.scalar · false)
  return { s with keyAllowed := true }

def plain? (s : Scanner) : Option Scanner := do
  let indent := match s.indents.head? with
    | some column => column + 1
    | none => 0
  let s ← s.saveKey?
  let (text, broken, rest) ← plainScalar? indent s.inFlow s.text
  return { s.push (.scalar text true) with keyAllowed := broken, text := rest }

def token? (s : Scanner) : Option Scanner :=
  let c := peek s.text
  let next := peekNext s.text
  if s.column = 0 ∧ c = '%' then directive? s.text >>= s.topLevel? .directive
  else if isDocumentMark '-' s.text then s.topLevel? .documentStart (s.text.drop 3)
  else if isDocumentMark '.' s.text then s.topLevel? .documentEnd (s.text.drop 3)
  else if c = '[' then s.flowStart? .flowSequenceStart
  else if c = '\x7b' then s.flowStart? .flowMappingStart
  else if c = ']' then s.flowEnd? .flowSequenceEnd
  else if c = '\x7d' then s.flowEnd? .flowMappingEnd
  else if c = ',' then s.flowEntry?
  else if c = '-' ∧ isGap next then s.blockEntry?
  else if c = '?' ∧ isGap next then s.explicitKey?
  else if c = ':' ∧ (isGap next ∨
      (s.inFlow ∧ (isFlowIndicator next ∨ (here s.text).index = s.quotedUpTo))) then s.value?
  else if c = '*' then s.keyLike? anchorName? .alias
  else if c = '&' then s.keyLike? anchorName? .anchor
  else if c = '!' then s.keyLike? tag? .tag
  else if (c = '|' ∨ c = '>') ∧ !s.inFlow then s.block?
  else if c = '\'' ∨ c = '"' then s.quoted?
  else if c = '%' ∨ c = '@' ∨ c = '\x60' then none
  else s.plain?

/-- Reads tokens up to the end of the text. Every token has a character of its own, so that fuel
for as many tokens as characters is enough. -/
def run : Nat → Scanner → Option Scanner
  | 0, _ => none
  | fuel + 1, s => do
    let s ← s.toNextToken?
    if isEnd (peek s.text) then (s.unroll none).dropKey?
    else run fuel (← s.token?)

end Scanner

def tokens? (text : List Char) : Option (List Token) :=
  let placed := Placed.ofText text
  (Scanner.run (placed.length + 1) (.ofText placed)).map fun s =>
    s.entries.toList.flatMap Entry.tokens

end ExperienceReplay.Yaml
