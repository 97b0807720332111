import ExperienceReplay.Yaml.Placed

/-!
The text of scalars: plain, quoted, and in block form. Reading one answers its text and the
characters after it.
-/

namespace ExperienceReplay.Yaml

/-- The line breaks in spaces; a carriage return before a line feed belongs to it. -/
def countBreaks : List Char → Nat
  | '\r' :: '\n' :: rest => countBreaks rest + 1
  | c :: rest => if isBreak c then countBreaks rest + 1 else countBreaks rest
  | [] => 0

def breaks (n : Nat) : List Char := List.replicate n '\n'

/-- Spaces inside a scalar: as they are within a line; one line break is a space, and of several
the first is left out. -/
def foldSpaces (spaces : List Char) : List Char :=
  match countBreaks spaces with
  | 0 => spaces
  | 1 => [' ']
  | n + 2 => breaks (n + 1)

def endsWord (flow : Bool) (c next : Char) : Bool :=
  isGap c || (c == ':' && (isGap next || (flow && isFlowIndicator next))) ||
    (flow && isFlowIndicator c)

def takeWord (flow : Bool) : List Placed → List Char × List Placed
  | [] => ([], [])
  | p :: rest =>
    if endsWord flow p.char (peek rest) then ([], p :: rest)
    else
      let (word, after) := takeWord flow rest
      (p.char :: word, after)

def indentsByTab (indent : Nat) (spaces : List Placed) : Bool :=
  (spaces.dropWhile fun p => !isBreak p.char).any fun p => p.char == '\t' && p.column < indent

/-- A plain scalar as far as read, with the spaces that follow its last word. -/
structure PlainText where
  text : List Char
  spaces : List Char

def PlainText.addWord (plain : PlainText) (word : List Char) : PlainText :=
  if word = [] then plain else ⟨plain.text ++ foldSpaces plain.spaces ++ word, []⟩

/-- Reads on at a plain scalar whose lines are indented by `indent` at least. Outside of flow
collections it ends at the first line with less. Fuel is the number of characters left. -/
def plainFrom (indent : Nat) (flow : Bool) :
    Nat → PlainText → List Placed → Option (PlainText × List Placed)
  | 0, _, _ => none
  | fuel + 1, plain, text =>
    if atDocumentMark text || peek text = '#' then some (plain, text)
    else
      let (word, text) := takeWord flow text
      let plain := plain.addWord word
      if isSpace (peek text) then
        let spaces := text.takeWhile (isSpace ·.char)
        let text := text.dropWhile (isSpace ·.char)
        let plain := { plain with spaces := chars spaces }
        if indentsByTab indent spaces then none
        else if !flow && (here text).column < indent then some (plain, text)
        else plainFrom indent flow fuel plain text
      else some (plain, text)

def plainScalar? (indent : Nat) (flow : Bool) (text : List Placed) :
    Option (String × Bool × List Placed) :=
  (plainFrom indent flow (text.length + 1) ⟨[], []⟩ text).map fun (plain, rest) =>
    (String.ofList plain.text, 0 < countBreaks plain.spaces, rest)

def escapes : List (Char × Char) :=
  [('0', '\x00'), ('a', '\x07'), ('b', '\x08'), ('t', '\t'), ('\t', '\t'), ('n', '\n'),
    ('v', '\x0b'), ('f', '\x0c'), ('r', '\r'), ('e', '\x1b'), (' ', ' '), ('"', '"'), ('\'', '\''),
    ('\\', '\\'), ('N', '\u0085'), ('_', '\u00a0'), ('L', '\u2028'), ('P', '\u2029')]

def codeLength? : Char → Option Nat
  | 'x' => some 2
  | 'u' => some 4
  | 'U' => some 8
  | _ => none

def codePoint? (digits : List Char) : Option Char :=
  let code := digits.foldl (fun n c => 16 * n + hexValue c) 0
  if digits.all isHexDigit ∧ code.isValidChar then some (Char.ofNat code) else none

def escape? (text : List Placed) : Option (Char × List Placed) :=
  let c := peek text
  let rest := text.drop 1
  match codeLength? c with
  | some n => (codePoint? (chars (rest.take n))).map fun code => (code, rest.drop n)
  | none => (escapes.lookup c).map fun escaped => (escaped, rest)

inductive QuoteStop where
  | closed
  | spaces
  | escapedBreak

def dropBreak (text : List Placed) : List Placed :=
  if peek text = '\r' ∧ peekNext text = '\n' then text.drop 2 else text.drop 1

/-- Reads a quoted scalar up to a space, an escaped line break, or its end. -/
def quotedWord (single : Bool) :
    Nat → List Char → List Placed → Option (List Char × QuoteStop × List Placed)
  | 0, _, _ => none
  | fuel + 1, word, text =>
    let c := peek text
    let next := peekNext text
    if isGap c then some (word, .spaces, text)
    else if single then
      if c = '\'' then
        if next = '\'' then quotedWord single fuel (word ++ ['\'']) (text.drop 2)
        else some (word, .closed, text.drop 1)
      else quotedWord single fuel (word ++ [c]) (text.drop 1)
    else if c = '"' then some (word, .closed, text.drop 1)
    else if c = '\\' then
      if isBreak next then some (word, .escapedBreak, dropBreak (text.drop 1))
      else
        match escape? (text.drop 1) with
        | some (escaped, rest) => quotedWord single fuel (word ++ [escaped]) rest
        | none => none
    else quotedWord single fuel (word ++ [c]) (text.drop 1)

def quotedFrom (single : Bool) : Nat → List Char → List Placed → Option (List Char × List Placed)
  | 0, _, _ => none
  | fuel + 1, read, text =>
    if atDocumentMark text || isEnd (peek text) then none
    else
      match quotedWord single (text.length + 1) [] text with
      | none => none
      | some (word, .closed, rest) => some (read ++ word, rest)
      | some (word, .spaces, rest) =>
        let (spaces, rest) := spanWhile isSpace rest
        quotedFrom single fuel (read ++ word ++ foldSpaces spaces) rest
      | some (word, .escapedBreak, rest) =>
        let (spaces, rest) := spanWhile isSpace rest
        quotedFrom single fuel (read ++ word ++ breaks (countBreaks spaces)) rest

def quotedScalar? (text : List Placed) : Option (String × List Placed) :=
  (quotedFrom (peek text == '\'') (text.length + 1) [] (text.drop 1)).map fun (read, rest) =>
    (String.ofList read, rest)

inductive Chomping where
  | strip
  | clip
  | keep
deriving DecidableEq

structure BlockHeader where
  folded : Bool
  chomping : Chomping
  /-- The indentation written, beyond that of the surrounding block. -/
  increment : Option Nat

def chompingOf? : Char → Option Chomping
  | '+' => some .keep
  | '-' => some .strip
  | _ => none

def incrementOf? (c : Char) : Option (Option Nat) :=
  if c = '0' then none
  else some (if c.isDigit then some (c.toNat - '0'.toNat) else none)

def blockHeader? (text : List Placed) : Option (BlockHeader × List Placed) := do
  let folded := peek text == '>'
  let text := text.drop 1
  match chompingOf? (peek text) with
  | some chomping =>
    let text := text.drop 1
    let increment ← incrementOf? (peek text)
    let rest ← endLine? (if increment.isSome then text.drop 1 else text)
    return (⟨folded, chomping, increment⟩, rest)
  | none =>
    let increment ← incrementOf? (peek text)
    let text := if increment.isSome then text.drop 1 else text
    match increment, chompingOf? (peek text) with
    | some _, some chomping => return (⟨folded, chomping, increment⟩, ← endLine? (text.drop 1))
    | _, _ => return (⟨folded, .clip, increment⟩, ← endLine? text)

structure BlockGap where
  count : Nat
  widest : Nat
  rest : List Placed

/-- Passes the empty lines before a line of a block scalar, and that line's indentation. Without a
known indentation all leading spaces count. A tab is refused where a space of it is missing. -/
def blockGap (indent : Option Nat) : Nat → Nat → Nat → List Placed → Option BlockGap
  | 0, _, _, _ => none
  | fuel + 1, count, widest, text =>
    let text := text.dropWhile fun p => p.char == ' ' && indent.all (p.column < ·)
    let column := (here text).column
    let widest := max widest column
    if peek text = '\t' ∧ indent.all (column < ·) then none
    else if isBreak (peek text) then
      blockGap indent fuel (count + 1) widest (dropBreak text)
    else some ⟨count, widest, text⟩

structure BlockText where
  text : List Char
  /-- Whether the last line read ended in a line break. -/
  broken : Bool
  empty : Nat
  /-- Whether the last line read began with a blank. -/
  indented : Bool

/-- The text before the next line: its line breaks, or in folded form a space for a single one
between two lines that do not begin with a blank. -/
def BlockText.continued (block : BlockText) (folded indented : Bool) : List Char :=
  if folded && block.broken && !block.indented && !indented then
    block.text ++ (if block.empty = 0 then [' '] else breaks block.empty)
  else block.text ++ breaks (if block.broken then 1 else 0) ++ breaks block.empty

def blockLines (folded : Bool) (indent : Nat) :
    Nat → BlockText → List Placed → Option (BlockText × List Placed)
  | 0, _, _ => none
  | fuel + 1, block, text =>
    if (here text).column ≠ indent ∨ isEnd (peek text) then some (block, text)
    else
      let indented := isBlank (peek text)
      let (line, rest) := spanWhile (!isLineEnd ·) text
      let read := block.continued folded indented ++ line
      if isEnd (peek rest) then some (⟨read, false, 0, indented⟩, rest)
      else
        match blockGap (some indent) (rest.length + 1) 0 0 (dropBreak rest) with
        | none => none
        | some gap => blockLines folded indent fuel ⟨read, true, gap.count, indented⟩ gap.rest

def BlockText.chomped (block : BlockText) (chomping : Chomping) : List Char :=
  let last := breaks (if block.broken then 1 else 0)
  match chomping with
  | .strip => block.text
  | .clip => block.text ++ last
  | .keep => block.text ++ last ++ breaks block.empty

/-- The text of a block scalar, from its indicator on, in a block indented by `parent`, which is
nothing at the outermost level. -/
def blockScalar? (parent : Option Nat) (text : List Placed) : Option (String × List Placed) := do
  let (header, text) ← blockHeader? text
  let written := header.increment.map (parent.getD 0 + ·)
  let gap ← blockGap written (text.length + 1) 0 0 text
  let least := match parent with
    | some column => column + 1
    | none => 1
  let indent := written.getD (max gap.widest least)
  let (block, rest) ← blockLines header.folded indent (gap.rest.length + 1)
    ⟨[], false, gap.count, false⟩ gap.rest
  return (String.ofList (block.chomped header.chomping), rest)

end ExperienceReplay.Yaml
