import ExperienceReplay.Proofs.Yaml.Plain
import ExperienceReplay.Proofs.Yaml.Quoted

/-!
Single tokens. Main statements: what the scanner has read, and where it stands, after a scalar, a
key with its colon, the entry of a block sequence and a sequence without items.
-/

namespace ExperienceReplay.Yaml.Scanner

/-- What has been read and what is left, outside of flow collections and without a possible key. -/
structure Stands (s : Scanner) (spot : Spot) (text : List Char) (tokens : List Token)
    (indents : List Nat) (keyAllowed : Bool) : Prop where
  text : s.text = placed spot text
  tokens : s.entries.toList.flatMap Entry.tokens = tokens
  indents : s.indents = indents
  keyAllowed : s.keyAllowed = keyAllowed
  key : s.key = none
  outer : s.outer = []

variable {s t : Scanner} {spot : Spot} {text rest : List Char} {tokens : List Token}
  {indents : List Nat} {keyAllowed : Bool}

namespace Stands

theorem inFlow (stands : s.Stands spot text tokens indents keyAllowed) : s.inFlow = false := by
  rw [Scanner.inFlow, stands.outer]
  rfl

theorem column (stands : s.Stands spot text tokens indents keyAllowed) :
    s.column = spot.column := by
  rw [Scanner.column, stands.text, here_placed]

theorem dropPastKeys? (stands : s.Stands spot text tokens indents keyAllowed) :
    s.dropPastKeys? = some s := by
  rw [Scanner.dropPastKeys?, stands.key, stands.outer]
  obtain ⟨text, entries, indents, keyAllowed, key, outer, quotedUpTo⟩ := s
  obtain rfl : key = none := stands.key
  obtain rfl : outer = [] := stands.outer
  rfl

theorem dropKey? (stands : s.Stands spot text tokens indents keyAllowed) :
    s.dropKey? = some s := by
  obtain ⟨text, entries, indents, keyAllowed, key, outer, quotedUpTo⟩ := s
  obtain rfl : key = none := stands.key
  rfl

theorem push (stands : s.Stands spot text tokens indents keyAllowed) (token : Token) :
    (s.push token).Stands spot text (tokens ++ [token]) indents keyAllowed where
  text := stands.text
  tokens := by simp [Scanner.push, Entry.tokens, ← stands.tokens]
  indents := stands.indents
  keyAllowed := stands.keyAllowed
  key := stands.key
  outer := stands.outer

end Stands

def blockEnds (n : Nat) : List Token := List.replicate n .blockEnd

theorem tokens_blockEnds (n : Nat) :
    (List.replicate n (Entry.token .blockEnd)).flatMap Entry.tokens = blockEnds n := by
  induction n with
  | zero => rfl
  | succ n ih => exact congrArg (Token.blockEnd :: ·) ih

theorem Stands.unroll (stands : s.Stands spot text tokens indents keyAllowed)
    (column : Option Nat) :
    (s.unroll column).Stands spot text
      (tokens ++ blockEnds (indents.takeWhile fun indent => column.all (· < indent)).length)
      (indents.dropWhile fun indent => column.all (· < indent)) keyAllowed := by
  rw [Scanner.unroll, stands.inFlow, if_neg (by decide), stands.indents]
  exact {
    text := stands.text
    tokens := by simp [stands.tokens, tokens_blockEnds]
    indents := rfl
    keyAllowed := stands.keyAllowed
    key := stands.key
    outer := stands.outer }

theorem Stands.exists_next {spaces : List Char}
    (stands : s.Stands spot (spaces ++ text) tokens indents keyAllowed) (only : IsSpaces spaces)
    (begins : BeginsToken (headChar text)) :
    ∃ t, s.toNextToken? = some t ∧
      t.Stands (spot.after spaces) text
        (tokens ++ blockEnds (indents.takeWhile ((spot.after spaces).column < ·)).length)
        (indents.dropWhile ((spot.after spaces).column < ·))
        (keyAllowed || spaces.contains '\n') := by
  have moved : Stands { s with
      keyAllowed := keyAllowed || spaces.contains '\n'
      text := placed (spot.after spaces) text } (spot.after spaces) text tokens indents
      (keyAllowed || spaces.contains '\n') :=
    ⟨rfl, stands.tokens, stands.indents, rfl, stands.key, stands.outer⟩
  refine ⟨_, ?_, moved.unroll (some (spot.after spaces).column)⟩
  rw [toNextToken?, stands.inFlow, stands.text, stands.keyAllowed,
    skipSpaces_placed spot keyAllowed only begins]
  dsimp only
  rw [moved.dropPastKeys?, Option.bind_eq_bind, Option.bind_some, moved.column]
  rfl

/-- Characters that begin something else than a plain scalar, wherever they stand. -/
def indicators : List Char :=
  ['[', '\x7b', ']', '\x7d', ',', '?', ':', '*', '&', '!', '|', '>', '\'', '"', '%', '@', '\x60']

theorem no_marks (here : s.text = placed spot text) (other : headChar text ∉ ['-', '.']) :
    isDocumentMark '-' s.text = false ∧ isDocumentMark '.' s.text = false := by
  simp only [List.mem_cons, List.not_mem_nil, or_false, not_or] at other
  rw [here]
  exact ⟨isDocumentMark_of_headChar spot other.1, isDocumentMark_of_headChar spot other.2⟩

theorem no_marks_of_column (here : s.text = placed spot text) (indented : 0 < spot.column) :
    isDocumentMark '-' s.text = false ∧ isDocumentMark '.' s.text = false := by
  rw [here]
  exact ⟨isDocumentMark_of_column spot indented, isDocumentMark_of_column spot indented⟩

theorem token?_eq_plain? (here : s.text = placed spot text)
    (noMarks : isDocumentMark '-' s.text = false ∧ isDocumentMark '.' s.text = false)
    (opens : headChar text ∉ indicators)
    (hyphen : headChar text = '-' → isGap (headChar (text.drop 1)) = false) :
    s.token? = s.plain? := by
  simp only [indicators, List.mem_cons, List.not_mem_nil, or_false, not_or] at opens
  have entry : ¬(headChar text = '-' ∧ isGap (headChar (text.drop 1)) = true) := by
    rintro ⟨same, gap⟩
    rw [hyphen same] at gap
    cases gap
  rw [token?, noMarks.1, noMarks.2, here, peek_placed, peekNext_placed]
  simp only [opens, entry, if_neg, and_false, false_and, or_self, Bool.false_eq_true,
    not_false_eq_true]

section

variable (here : s.text = placed spot text)
include here

theorem token?_eq_value? (colon : headChar text = ':')
    (gap : isGap (headChar (text.drop 1)) = true) :
    s.token? = s.value? := by
  obtain ⟨noStart, noEnd⟩ := no_marks here (by rw [colon]; decide)
  rw [token?, noStart, noEnd, here, peek_placed, peekNext_placed, colon, gap]
  simp

theorem token?_eq_quoted? (quote : headChar text = '"') : s.token? = s.quoted? := by
  obtain ⟨noStart, noEnd⟩ := no_marks here (by rw [quote]; decide)
  rw [token?, noStart, noEnd, here, peek_placed, peekNext_placed, quote]
  simp

theorem token?_eq_flowStart? (bracket : headChar text = '[') :
    s.token? = s.flowStart? .flowSequenceStart := by
  obtain ⟨noStart, noEnd⟩ := no_marks here (by rw [bracket]; decide)
  rw [token?, noStart, noEnd, here, peek_placed, peekNext_placed, bracket]
  simp

theorem token?_eq_flowEnd? (bracket : headChar text = ']') :
    s.token? = s.flowEnd? .flowSequenceEnd := by
  obtain ⟨noStart, noEnd⟩ := no_marks here (by rw [bracket]; decide)
  rw [token?, noStart, noEnd, here, peek_placed, peekNext_placed, bracket]
  simp

theorem token?_eq_blockEntry? (indented : 0 < spot.column) (hyphen : headChar text = '-')
    (gap : isGap (headChar (text.drop 1)) = true) : s.token? = s.blockEntry? := by
  obtain ⟨noStart, noEnd⟩ := no_marks_of_column here indented
  rw [token?, noStart, noEnd, here, peek_placed, peekNext_placed, hyphen, gap]
  simp

end

namespace Stands

theorem saveKey? (stands : s.Stands spot text tokens indents false) : s.saveKey? = some s := by
  rw [Scanner.saveKey?, stands.keyAllowed]
  rfl

theorem plain? {indent : Nat} {gap : List Char}
    (stands : s.Stands spot (text ++ (gap ++ rest)) tokens (indent :: indents) false)
    (isPhrase : IsPhrase text) (only : IsSpaces gap) (broken : '\n' ∈ gap)
    (begins : isSpace (headChar rest) = false) (deep : indent < spot.column)
    (shallow : ((spot.after text).after gap).column ≤ indent) :
    ∃ t, s.plain? = some t ∧
      t.Stands ((spot.after text).after gap) rest
        (tokens ++ [.scalar (String.ofList text) true]) (indent :: indents) true := by
  have pushed := stands.push (.scalar (String.ofList text) true)
  refine ⟨{ s.push (.scalar (String.ofList text) true) with
    keyAllowed := true
    text := placed ((spot.after text).after gap) rest }, ?_,
    ⟨rfl, pushed.tokens, pushed.indents, rfl, pushed.key, pushed.outer⟩⟩
  rw [Scanner.plain?, stands.indents, stands.saveKey?]
  simp only [List.head?_cons, Option.bind_eq_bind, Option.bind_some]
  rw [stands.inFlow, stands.text, plainScalar?_placed spot only broken begins isPhrase
    (Nat.zero_lt_of_lt deep) deep (Nat.lt_succ_of_le shallow)]
  rfl

theorem quoted? (stands : s.Stands spot ('"' :: (text.flatMap quotedChar ++ '"' :: rest)) tokens
      indents false) :
    ∃ t, s.quoted? = some t ∧
      t.Stands (spot.after ('"' :: (text.flatMap quotedChar ++ ['"']))) rest
        (tokens ++ [.scalar (String.ofList text) false]) indents false := by
  have pushed := stands.push (.scalar (String.ofList text) false)
  have read := @quotedScalar?_placed spot rest text
  generalize spot.after ('"' :: (text.flatMap quotedChar ++ ['"'])) = after at *
  refine ⟨{ s.push (.scalar (String.ofList text) false) with
    keyAllowed := false
    text := placed after rest
    quotedUpTo := (here (placed after rest)).index }, ?_,
    ⟨rfl, pushed.tokens, pushed.indents, rfl, pushed.key, pushed.outer⟩⟩
  rw [Scanner.quoted?, keyLike?, stands.saveKey?]
  simp only [Option.bind_eq_bind, Option.bind_some]
  rw [stands.text, read]
  rfl

theorem skip {c : Char} (stands : s.Stands spot (c :: rest) tokens indents keyAllowed) :
    (s.skip 1).Stands (spot.next c) rest tokens indents keyAllowed where
  text := by rw [Scanner.skip, stands.text, drop_one_placed]
  tokens := stands.tokens
  indents := stands.indents
  keyAllowed := stands.keyAllowed
  key := stands.key
  outer := stands.outer

end Stands

def opens (column : Nat) (indents : List Nat) : Bool := indents.head?.all (· < column)

def opening (token : Token) (column : Nat) (indents : List Nat) : List Token :=
  if opens column indents then [token] else []

def opened (column : Nat) (indents : List Nat) : List Nat :=
  if opens column indents then column :: indents else indents

namespace Stands

theorem opensAt (stands : s.Stands spot text tokens indents keyAllowed) (column : Nat) :
    s.opensAt column = opens column indents := by
  rw [Scanner.opensAt, stands.inFlow, stands.indents]
  rfl

theorem roll (stands : s.Stands spot text tokens indents keyAllowed) (column : Nat)
    (token : Token) :
    (s.roll column token).Stands spot text (tokens ++ opening token column indents)
      (opened column indents) keyAllowed := by
  rw [Scanner.roll, stands.opensAt, opening, opened]
  cases opens column indents
  · rw [if_neg (by decide), if_neg (by decide), if_neg (by decide), List.append_nil]
    exact stands
  · have pushed := stands.push token
    rw [if_pos rfl, if_pos rfl, if_pos rfl]
    exact ⟨pushed.text, pushed.tokens, by rw [stands.indents], pushed.keyAllowed, pushed.key,
      pushed.outer⟩

theorem allowKey (stands : s.Stands spot text tokens indents keyAllowed) (allowed : Bool) :
    Stands { s with keyAllowed := allowed } spot text tokens indents allowed :=
  ⟨stands.text, stands.tokens, stands.indents, rfl, stands.key, stands.outer⟩

theorem blockEntry? {c : Char} (stands : s.Stands spot (c :: rest) tokens indents true) :
    ∃ t, s.blockEntry? = some t ∧
      t.Stands (spot.next c) rest
        (tokens ++ opening .blockSequenceStart spot.column indents ++ [.blockEntry])
        (opened spot.column indents) true := by
  have rolled := stands.roll spot.column .blockSequenceStart
  refine ⟨_, ?_, ((rolled.allowKey true).push .blockEntry).skip⟩
  rw [Scanner.blockEntry?, stands.inFlow, stands.keyAllowed, stands.column, rolled.dropKey?]
  rfl

end Stands

def slotted (s : Scanner) : Scanner :=
  { s with entries := s.entries.push .openSlot, key := some ⟨here s.text, false, s.entries.size⟩ }

def keyed (s : Scanner) (key : List Char) : Scanner :=
  { s.slotted.push (.scalar (String.ofList key) true) with
    keyAllowed := false
    text := s.text.drop key.length }

def filled (s : Scanner) (key : List Char) : Scanner :=
  let k := s.keyed key
  let opens := k.opensAt (here s.text).column
  { k with
    entries := k.entries.setIfInBounds s.entries.size (.keySlot opens)
    indents := if opens then (here s.text).column :: k.indents else k.indents
    key := none
    keyAllowed := false }

def keyTokens (key : List Char) (column : Nat) (indents : List Nat) : List Token :=
  opening .blockMappingStart column indents ++ [.key, .scalar (String.ofList key) true, .value]

theorem no_closings {column right : Nat} (inside : indents.head?.all (· ≤ column))
    (le : column ≤ right) :
    indents.takeWhile (right < ·) = [] ∧ indents.dropWhile (right < ·) = indents := by
  cases indents with
  | nil => exact ⟨rfl, rfl⟩
  | cons indent indents =>
    have : indent ≤ column := by simpa using inside
    have : ¬ right < indent := by omega
    exact ⟨List.takeWhile_cons_of_neg (by simpa using this),
      List.dropWhile_cons_of_neg (by simpa using this)⟩

theorem inside_opened {column : Nat} (inside : indents.head?.all (· ≤ column)) :
    (opened column indents).head?.all (· ≤ column) := by
  unfold opened
  split
  · simp
  · exact inside

namespace Stands

variable {key : List Char}

theorem saveKey?_slotted (stands : s.Stands spot text tokens indents true) :
    s.saveKey? = some s.slotted := by
  rw [Scanner.saveKey?, if_pos stands.keyAllowed, stands.inFlow, stands.dropKey?]
  rfl

theorem text_keyed (stands : s.Stands spot (key ++ rest) tokens indents keyAllowed) :
    (s.keyed key).text = placed (spot.after key) rest := by
  rw [keyed, stands.text, drop_placed]

theorem plain?_key (stands : s.Stands spot (key ++ ':' :: rest) tokens indents true)
    (isKey : IsKey key) (gap : isGap (headChar rest) = true) : s.plain? = some (s.keyed key) := by
  have flow : s.slotted.inFlow = false := stands.inFlow
  have text : s.slotted.text = placed spot (key ++ ':' :: rest) := stands.text
  rw [Scanner.plain?, stands.saveKey?_slotted]
  simp only [Option.bind_eq_bind, Option.bind_some]
  rw [flow, text, plainScalar?_key spot isKey gap, ← stands.text_keyed]
  rfl

theorem dropPastKeys?_keyed (stands : s.Stands spot (key ++ ':' :: rest) tokens indents true)
    (isKey : IsKey key) : (s.keyed key).dropPastKeys? = some (s.keyed key) := by
  have recent : PossibleKey.isPast ⟨here s.text, false, s.entries.size⟩
      (here (s.keyed key).text) = false := by
    have := isKey.2.1
    rw [stands.text_keyed, stands.text, here_placed, here_placed,
      Spot.after_of_no_break isKey.no_break]
    simp [PossibleKey.isPast]
    omega
  have possible : (s.keyed key).key = some ⟨here s.text, false, s.entries.size⟩ := rfl
  have outer : (s.keyed key).outer = [] := stands.outer
  generalize s.keyed key = k at *
  obtain ⟨text, entries, indents, keyAllowed, _, _, quotedUpTo⟩ := k
  obtain rfl := possible
  obtain rfl := outer
  simp [Scanner.dropPastKeys?, recent]

theorem toNextToken?_keyed (stands : s.Stands spot (key ++ ':' :: rest) tokens indents true)
    (isKey : IsKey key) (inside : indents.head?.all (· ≤ spot.column)) :
    (s.keyed key).toNextToken? = some (s.keyed key) := by
  have dropped := stands.dropPastKeys?_keyed isKey
  have flow : (s.keyed key).inFlow = false := stands.inFlow
  have columns : (s.keyed key).indents = indents := stands.indents
  have column : (s.keyed key).column = spot.column + key.length := by
    rw [Scanner.column, stands.text_keyed, here_placed, Spot.after_of_no_break isKey.no_break]
  have begins : BeginsToken (headChar (':' :: rest)) := ⟨rfl, (by decide : ':' ≠ '#')⟩
  have passed : skipSpaces false false (s.keyed key).keyAllowed (s.keyed key).text =
      ((s.keyed key).keyAllowed, (s.keyed key).text) := by
    rw [stands.text_keyed]
    exact skipSpaces_placed (spot.after key) false (List.forall_mem_nil _) begins
  generalize s.keyed key = k at *
  rw [toNextToken?, flow, passed]
  change (k.dropPastKeys? >>= fun s => some (s.unroll (some s.column))) = some k
  rw [dropped, Option.bind_eq_bind, Option.bind_some, Scanner.unroll, flow, columns, column]
  have nothing := no_closings inside (Nat.le_add_right spot.column key.length)
  simp only [Option.all_some]
  rw [nothing.1, nothing.2]
  simp [← columns]

theorem filled (stands : s.Stands spot (key ++ ':' :: rest) tokens indents true) :
    (s.filled key).Stands (spot.after key) (':' :: rest)
      (tokens ++ (opening .blockMappingStart spot.column indents ++
        [.key, .scalar (String.ofList key) true]))
      (opened spot.column indents) false := by
  have column : (here s.text).column = spot.column := stands.column
  have opensAt : (s.keyed key).opensAt spot.column = opens spot.column indents :=
    stands.opensAt spot.column
  have slot (opens : Bool) : (Entry.keySlot opens).tokens =
      (if opens then [.blockMappingStart] else []) ++ [.key] := by
    cases opens <;> rfl
  refine ⟨stands.text_keyed, ?_, ?_, rfl, rfl, stands.outer⟩
  · have entries : (s.filled key).entries.toList =
        s.entries.toList ++
          [.keySlot (opens spot.column indents), .token (.scalar (String.ofList key) true)] := by
      simp only [Scanner.filled, column, opensAt]
      simp [keyed, slotted, Scanner.push]
    rw [entries, List.flatMap_append, stands.tokens, List.flatMap_cons, slot, opening]
    simp [Entry.tokens]
  · simp only [Scanner.filled, column, opensAt, opened, ← stands.indents]
    rfl

theorem value?_keyed (stands : s.Stands spot (key ++ ':' :: rest) tokens indents true) :
    ∃ t, (s.keyed key).value? = some t ∧
      t.Stands ((spot.after key).next ':') rest (tokens ++ keyTokens key spot.column indents)
        (opened spot.column indents) false := by
  have read := (stands.filled.push .value).skip
  rw [List.append_assoc, List.append_assoc] at read
  exact ⟨_, rfl, read⟩

end Stands

def inSequence (s : Scanner) : Scanner :=
  ({ s with key := none, outer := [none], keyAllowed := true }.push .flowSequenceStart).skip 1

namespace Stands

theorem token?_inSequence (stands : s.Stands spot ('[' :: rest) tokens indents false) :
    s.token? = some s.inSequence := by
  rw [token?_eq_flowStart? stands.text rfl, Scanner.flowStart?, stands.saveKey?]
  simp only [Option.bind_eq_bind, Option.bind_some]
  rw [stands.outer, stands.key]
  rfl

theorem text_inSequence (stands : s.Stands spot ('[' :: rest) tokens indents false) :
    s.inSequence.text = placed (spot.next '[') rest := by
  change s.text.drop 1 = _
  rw [stands.text, drop_one_placed]

theorem toNextToken?_inSequence (stands : s.Stands spot ('[' :: ']' :: rest) tokens indents false) :
    s.inSequence.toNextToken? = some s.inSequence := by
  have passed : skipSpaces true false true s.inSequence.text = (true, s.inSequence.text) := by
    rw [stands.text_inSequence, placed_cons]
    rfl
  have flow : s.inSequence.inFlow = true := rfl
  have allowed : s.inSequence.keyAllowed = true := rfl
  rw [toNextToken?, flow, allowed, passed]
  rfl

theorem closed_inSequence (stands : s.Stands spot ('[' :: ']' :: rest) tokens indents false) :
    ∃ read, s.inSequence.token? = some read ∧
      read.Stands ((spot.next '[').next ']') rest
        (tokens ++ [.flowSequenceStart, .flowSequenceEnd]) indents false := by
  have text := stands.text_inSequence
  rw [token?_eq_flowEnd? text rfl]
  refine ⟨_, rfl, ?_, ?_, stands.indents, rfl, rfl, rfl⟩
  · change s.inSequence.text.drop 1 = _
    rw [text, drop_one_placed]
  · rw [← stands.tokens]
    simp [inSequence, Scanner.push, Scanner.skip, Entry.tokens]

end Stands

end ExperienceReplay.Yaml.Scanner
