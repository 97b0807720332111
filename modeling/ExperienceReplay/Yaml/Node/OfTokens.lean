import ExperienceReplay.Yaml.Node.Basic

/-!
Documents from tokens.
-/

namespace ExperienceReplay.Yaml

structure Reader where
  tokens : List Token
  names : List (String × Nat)
  anchored : List (Nat × Node)

/-- Reading takes tokens from the front; nothing is answered where they make no document. -/
abbrev Read (α : Type) : Type := StateT Reader Option α

namespace Read

def malformed {α : Type} : Read α := fun _ => none

def peek : Read (Option Token) := do return (← get).tokens.head?

def skip : Read Unit := modify fun r => { r with tokens := r.tokens.drop 1 }

def accept (token : Token) : Read Bool := do
  if (← peek) == some token then
    skip
    return true
  else return false

def expect (token : Token) : Read Unit := do
  if !(← accept token) then malformed

def isNext (tokens : List Token) : Read Bool := do
  return (← peek).any tokens.contains

/-- A new number for an anchor. An anchor of the same name is forgotten. -/
def newAnchor (name : String) : Read Nat := do
  let number := (← get).names.length
  modify fun r => { r with names := (name, number) :: r.names }
  return number

/-- The anchor and the tag before a node, in either order. -/
def properties : Read (Option Nat × Option Tag) := do
  match ← peek with
  | some (.anchor name) =>
    skip
    let anchor ← newAnchor name
    match ← peek with
    | some (.tag tag) =>
      skip
      return (some anchor, some tag)
    | _ => return (some anchor, none)
  | some (.tag tag) =>
    skip
    match ← peek with
    | some (.anchor name) =>
      skip
      return (some (← newAnchor name), some tag)
    | _ => return (none, some tag)
  | _ => return (none, none)

def anchored (anchor : Option Nat) (node : Node) : Read Node := do
  match anchor with
  | some number => modify fun r => { r with anchored := (number, node) :: r.anchored }
  | none => pure ()
  return node

mutual

/-- A node. Block collections begin only where `block` allows them, and sequences without
indentation where `indentless` does. -/
def node : Nat → (block indentless : Bool) → Read Node
  | 0, _, _ => malformed
  | fuel + 1, block, indentless => do
    match ← peek with
    | some (.alias name) =>
      skip
      match (← get).names.lookup name with
      | some number => return .alias number
      | none => malformed
    | _ =>
      let (anchor, tag) ← properties
      match ← peek with
      | some (.scalar text plain) =>
        skip
        anchored anchor (.scalar text plain tag)
      | some .flowSequenceStart =>
        skip
        anchored anchor (.sequence (← flowItems fuel true))
      | some .flowMappingStart =>
        skip
        anchored anchor (.mapping (← flowEntries fuel true))
      | some .blockEntry =>
        if indentless then anchored anchor (.sequence (← indentlessItems fuel))
        else unwritten anchor tag
      | some .blockSequenceStart =>
        if block then
          skip
          anchored anchor (.sequence (← blockItems fuel))
        else unwritten anchor tag
      | some .blockMappingStart =>
        if block then
          skip
          anchored anchor (.mapping (← blockEntries fuel))
        else unwritten anchor tag
      | _ => unwritten anchor tag

/-- An anchor or a tag may stand for an empty scalar. -/
def unwritten (anchor : Option Nat) (tag : Option Tag) : Read Node :=
  if anchor.isSome || tag.isSome then anchored anchor (.scalar "" true tag) else malformed

def nodeUnless : Nat → List Token → (block indentless : Bool) → Read Node
  | 0, _, _, _ => malformed
  | fuel + 1, ends, block, indentless => do
    if ← isNext ends then return .absent else node fuel block indentless

def blockItems : Nat → Read (List Node)
  | 0 => malformed
  | fuel + 1 => do
    if ← accept .blockEnd then return []
    expect .blockEntry
    let item ← nodeUnless fuel [.blockEntry, .blockEnd] true false
    return item :: (← blockItems fuel)

def indentlessItems : Nat → Read (List Node)
  | 0 => malformed
  | fuel + 1 => do
    if ← accept .blockEntry then
      let item ← nodeUnless fuel [.blockEntry, .key, .value, .blockEnd] true false
      return item :: (← indentlessItems fuel)
    else return []

def blockEntries : Nat → Read (List (Node × Node))
  | 0 => malformed
  | fuel + 1 => do
    if ← accept .blockEnd then return []
    let key ← if ← accept .key then nodeUnless fuel [.key, .value, .blockEnd] true true
      else if ← isNext [.value] then pure .absent
      else malformed
    let value ← if ← accept .value then nodeUnless fuel [.key, .value, .blockEnd] true true
      else pure .absent
    return (key, value) :: (← blockEntries fuel)

/-- The items of a flow sequence; a comma stands before each but the first, and may end them. -/
def flowItems : Nat → Bool → Read (List Node)
  | 0, _ => malformed
  | fuel + 1, first => do
    if ← accept .flowSequenceEnd then return []
    if !first then expect .flowEntry
    if ← accept .flowSequenceEnd then return []
    let item ← if ← accept .key then flowPair fuel else node fuel false false
    return item :: (← flowItems fuel false)

/-- A mapping of one entry as an item of a flow sequence. A missing key takes the token after it
along. -/
def flowPair : Nat → Read Node
  | 0 => malformed
  | fuel + 1 => do
    let key ← if ← isNext [.value, .flowEntry, .flowSequenceEnd] then
        skip
        pure .absent
      else node fuel false false
    let value ← if ← accept .value then
        nodeUnless fuel [.flowEntry, .flowSequenceEnd] false false
      else pure .absent
    return .mapping [(key, value)]

def flowEntries : Nat → Bool → Read (List (Node × Node))
  | 0, _ => malformed
  | fuel + 1, first => do
    if ← accept .flowMappingEnd then return []
    if !first then expect .flowEntry
    if ← accept .flowMappingEnd then return []
    let entry ← if ← accept .key then
        let key ← nodeUnless fuel [.value, .flowEntry, .flowMappingEnd] false false
        pure (key, ← flowValue fuel)
      else if ← isNext [.value] then pure (.absent, ← flowValue fuel)
      else pure (← node fuel false false, .absent)
    return entry :: (← flowEntries fuel false)

def flowValue : Nat → Read Node
  | 0 => malformed
  | fuel + 1 => do
    if ← accept .value then nodeUnless fuel [.flowEntry, .flowMappingEnd] false false
    else return .absent

end

def directives : List Token → List Token
  | .directive :: rest => directives rest
  | tokens => tokens

def rootAfterMark (fuel : Nat) : Read Node := do
  match ← peek with
  | none | some .directive | some .documentStart | some .documentEnd => return .absent
  | _ => node fuel true false

def root (fuel : Nat) : Read Node := do
  match ← peek with
  | none => malformed
  | some .directive =>
    modify fun r => { r with tokens := directives r.tokens }
    expect .documentStart
    rootAfterMark fuel
  | some .documentStart =>
    skip
    rootAfterMark fuel
  | _ => node fuel true false

end Read

def Document.ofTokens? (tokens : List Token) : Option Document := do
  let (root, reader) ← (Read.root (4 * tokens.length + 4)).run ⟨tokens, [], []⟩
  if reader.tokens.all (· == .documentEnd) then some ⟨root, reader.anchored⟩ else none

end ExperienceReplay.Yaml
