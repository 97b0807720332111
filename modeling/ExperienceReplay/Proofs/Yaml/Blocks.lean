import ExperienceReplay.Proofs.Yaml.Nodes
import ExperienceReplay.Proofs.Yaml.Writing

/-!
Block collections as they are laid out. Main statement: a document whose lines are the members of a
block mapping is read as that mapping.
-/

namespace ExperienceReplay.Yaml

open Scanner

def closings (n : Nat) (indents : List Nat) : List Token :=
  blockEnds (indents.takeWhile (n < ·)).length

/-- A text is laid out from a column on: the scanner reads its tokens as some of a collection, up to
the next line that begins there or further left. Where the collection is not open yet, its token
comes first. -/
structure Lays (start : Token) (column : Nat) (outer : List Nat) (text : List Char)
    (tokens : List Token) : Prop where
  begins : ∀ more, BeginsToken (headChar (text ++ more))
  noNul : '\x00' ∉ text
  leads : ∀ {indents : List Nat} {n : Nat} {rest : List Char} (read : List Token),
    opened column indents = column :: outer → n ≤ column → BeginsToken (headChar rest) →
    Leads (At column (text ++ (newline n ++ rest)) read indents true)
      (At n rest (read ++ (opening start column indents ++ tokens ++ closings n (column :: outer)))
        ((column :: outer).dropWhile (n < ·)) true)

variable {start : Token} {column : Nat} {outer : List Nat}

theorem inside_of_opened {indents : List Nat} (h : opened column indents = column :: outer) :
    indents.head?.all (· ≤ column) = true := by
  unfold opened at h
  split at h
  next opens =>
    rw [Scanner.opens] at opens
    cases indents with
    | nil => rfl
    | cons indent indents =>
      rw [List.head?_cons, Option.all_some, decide_eq_true_eq] at opens ⊢
      exact Nat.le_of_lt opens
  next => simp [h]

theorem opened_self : opened column (column :: outer) = column :: outer := by
  simp [opened, opens]

theorem opening_self : opening start column (column :: outer) = [] := by
  simp [opening, opens]

theorem opened_of_lt {right : Nat} (h : column < right) :
    opened right (column :: outer) = right :: column :: outer := by
  simp [opened, opens, h]

theorem opening_of_lt {right : Nat} (h : column < right) :
    opening start right (column :: outer) = [start] := by
  simp [opening, opens, h]

theorem closings_self : closings column (column :: outer) = [] := by
  rw [closings, List.takeWhile_cons_of_neg (by simp)]
  rfl

theorem closings_of_lt {n : Nat} (h : n < column) :
    closings n (column :: outer) = .blockEnd :: closings n outer := by
  rw [closings, List.takeWhile_cons_of_pos (by simpa using h)]
  rfl

namespace Lays

theorem append {a b : List Char} {ta tb : List Token} (first : Lays start column outer a ta)
    (second : Lays start column outer b tb) :
    Lays start column outer (a ++ (newline column ++ b)) (ta ++ tb) where
  begins more := by
    rw [List.append_assoc]
    exact first.begins _
  noNul := by
    simp [first.noNul, second.noNul, newline, blanks]
  leads := by
    intro indents n rest read isOpened le begins
    have head := first.leads read isOpened (Nat.le_refl column)
      (second.begins (newline n ++ rest))
    have tail := second.leads (read ++ (opening start column indents ++ ta)) opened_self le begins
    rw [closings_self, List.append_nil, List.dropWhile_cons_of_neg (by simp)] at head
    rw [opening_self] at tail
    simpa using head.trans tail

variable {key : String} {node : Node}

theorem scalar {written : List Char} {text : String} {plain : Bool} (isKey : IsKey key.toList)
    (isWritten : IsWritten written text plain) :
    Lays .blockMappingStart column outer (key.toList ++ ':' :: ' ' :: written)
      (Member.allTokens ⟨key, [.scalar text plain], node⟩) where
  begins more := by
    rw [List.append_assoc]
    exact isKey.begins _
  noNul := by
    have : '\x00' ∉ written := fun mem => absurd (isWritten.gaps _ mem rfl) (by decide)
    simp [isKey.no_nul, this]
  leads := by
    intro indents n rest read isOpened le begins
    have named := leads_key_value read isKey (isWritten.begins (newline n ++ rest))
      (inside_of_opened isOpened)
    rw [isOpened] at named
    have line := named.trans (leads_scalar _ isWritten begins (by omega) le)
    simpa [keyTokens, closings, Member.allTokens] using line

theorem emptySequence (isKey : IsKey key.toList) :
    Lays .blockMappingStart column outer (key.toList ++ ':' :: ' ' :: ['[', ']'])
      (Member.allTokens ⟨key, [.flowSequenceStart, .flowSequenceEnd], node⟩) where
  begins more := by
    rw [List.append_assoc]
    exact isKey.begins _
  noNul := by
    simp [isKey.no_nul]
  leads := by
    intro indents n rest read isOpened le begins
    have named := leads_key_value read isKey
      (⟨rfl, (by decide : '[' ≠ '#')⟩ : BeginsToken (headChar ('[' :: ']' :: (newline n ++ rest))))
      (inside_of_opened isOpened)
    rw [isOpened] at named
    have line := named.trans (leads_emptySequence _ begins)
    simpa [keyTokens, closings, Member.allTokens] using line

theorem nested {inner : List Char} {tokens : List Token} {right : Nat} (isKey : IsKey key.toList)
    (deeper : column < right) (lays : Lays start right (column :: outer) inner tokens) :
    Lays .blockMappingStart column outer (key.toList ++ ':' :: (newline right ++ inner))
      (Member.allTokens ⟨key, start :: (tokens ++ [.blockEnd]), node⟩) where
  begins more := by
    rw [List.append_assoc]
    exact isKey.begins _
  noNul := by
    simp [isKey.no_nul, lays.noNul, newline, blanks]
  leads := by
    intro indents n rest read isOpened le begins
    have named := leads_key_newline read isKey (lays.begins (newline n ++ rest))
      (inside_of_opened isOpened) (Nat.le_of_lt deeper)
    rw [isOpened] at named
    have value := lays.leads (read ++ keyTokens key.toList column indents) (opened_of_lt deeper)
      (by omega : n ≤ right) begins
    have right := Nat.lt_of_le_of_lt le deeper
    rw [opening_of_lt deeper, closings_of_lt right,
      List.dropWhile_cons_of_pos (by simpa using right)] at value
    simpa [keyTokens, Member.allTokens] using named.trans value

/-- A collection as an item of a sequence, on the line of its hyphen. -/
theorem item {inner : List Char} {tokens : List Token} (indented : 0 < column)
    (lays : Lays start (column + 2) (column :: outer) inner tokens) :
    Lays .blockSequenceStart column outer ('-' :: ' ' :: inner)
      (.blockEntry :: start :: (tokens ++ [.blockEnd])) where
  begins _ := ⟨rfl, (by decide : '-' ≠ '#')⟩
  noNul := by
    simp [lays.noNul]
  leads := by
    intro indents n rest read isOpened le begins
    have entry := leads_item read indented (lays.begins (newline n ++ rest))
      (inside_of_opened isOpened)
    rw [isOpened] at entry
    have deeper : column < column + 2 := Nat.lt_add_of_pos_right (by decide)
    have value := lays.leads (read ++ opening .blockSequenceStart column indents ++ [.blockEntry])
      (opened_of_lt deeper) (by omega : n ≤ column + 2) begins
    have right := Nat.lt_of_le_of_lt le deeper
    rw [opening_of_lt deeper, closings_of_lt right,
      List.dropWhile_cons_of_pos (by simpa using right)] at value
    simpa using entry.trans value

end Lays

inductive Content where
  | members (entries : List (Node × Node))
  | items (nodes : List Node)

namespace Content

def opener : Content → Token
  | members _ => .blockMappingStart
  | items _ => .blockSequenceStart

def node : Content → Node
  | members entries => .mapping entries
  | items nodes => .sequence nodes

def IsReadOf : Content → List Token → Prop
  | members entries, tokens => ∃ ms : List Member, entries = ms.map Member.entry ∧
      tokens = ms.flatMap Member.allTokens ∧ ∀ m ∈ ms, IsRead m.tokens m.node
  | items nodes, tokens => ∃ items : List (List Token × Node), nodes = items.map Prod.snd ∧
      tokens = (items.flatMap fun item => .blockEntry :: item.1) ∧
      ∀ item ∈ items, IsRead item.1 item.2

theorem isRead {content : Content} {tokens : List Token} (h : content.IsReadOf tokens) :
    IsRead (content.opener :: (tokens ++ [.blockEnd])) content.node := by
  cases content with
  | members entries =>
    obtain ⟨ms, rfl, rfl, reads⟩ := h
    exact isRead_mapping reads
  | items nodes =>
    obtain ⟨items, rfl, rfl, reads⟩ := h
    exact isRead_sequence reads

end Content

def keyNode (key : String) : Node := .scalar key true none

/-- A text shows members or items one below the other, from a column on. -/
inductive Shows : Nat → List Char → Content → Prop where
  | scalar {column : Nat} {key text : String} {written : List Char} {plain : Bool}
      (isKey : IsKey key.toList) (isWritten : IsWritten written text plain) :
      Shows column (key.toList ++ ':' :: ' ' :: written)
        (.members [(keyNode key, .scalar text plain none)])
  | emptySequence {column : Nat} {key : String} (isKey : IsKey key.toList) :
      Shows column (key.toList ++ ':' :: ' ' :: ['[', ']'])
        (.members [(keyNode key, .sequence [])])
  | nested {column right : Nat} {key : String} {text : List Char} {content : Content}
      (isKey : IsKey key.toList) (deeper : column < right) (shows : Shows right text content) :
      Shows column (key.toList ++ ':' :: (newline right ++ text))
        (.members [(keyNode key, content.node)])
  | item {column : Nat} {text : List Char} {content : Content} (indented : 0 < column)
      (shows : Shows (column + 2) text content) :
      Shows column ('-' :: ' ' :: text) (.items [content.node])
  | members {column : Nat} {a b : List Char} {left right : List (Node × Node)}
      (above : Shows column a (.members left)) (below : Shows column b (.members right)) :
      Shows column (a ++ (newline column ++ b)) (.members (left ++ right))
  | items {column : Nat} {a b : List Char} {left right : List Node}
      (above : Shows column a (.items left)) (below : Shows column b (.items right)) :
      Shows column (a ++ (newline column ++ b)) (.items (left ++ right))

theorem isReadOf_member (key : String) {tokens : List Token} {node : Node}
    (isRead : IsRead tokens node) :
    (Content.members [(keyNode key, node)]).IsReadOf (Member.allTokens ⟨key, tokens, node⟩) :=
  ⟨[⟨key, tokens, node⟩], rfl, (List.append_nil _).symm, List.forall_mem_singleton.2 isRead⟩

theorem exists_lays_of_shows {text : List Char} {content : Content}
    (shows : Shows column text content) (outer : List Nat) :
    ∃ tokens, content.IsReadOf tokens ∧ Lays content.opener column outer text tokens := by
  induction shows generalizing outer with
  | scalar isKey isWritten =>
    exact ⟨_, isReadOf_member _ (isRead_scalar _ _), .scalar isKey isWritten⟩
  | emptySequence isKey =>
    exact ⟨_, isReadOf_member _ isRead_emptySequence, .emptySequence isKey⟩
  | nested isKey deeper _ ih =>
    obtain ⟨tokens, reads, lays⟩ := ih (_ :: outer)
    exact ⟨_, isReadOf_member _ (Content.isRead reads), .nested isKey deeper lays⟩
  | @item column _ content indented _ ih =>
    obtain ⟨tokens, reads, lays⟩ := ih (column :: outer)
    refine ⟨_, ⟨[(_, content.node)], rfl, (List.append_nil _).symm, ?_⟩, .item indented lays⟩
    exact List.forall_mem_singleton.2 (Content.isRead reads)
  | members _ _ ihAbove ihBelow =>
    obtain ⟨_, ⟨left, rfl, rfl, readsLeft⟩, lays⟩ := ihAbove outer
    obtain ⟨_, ⟨right, rfl, rfl, readsRight⟩, lays'⟩ := ihBelow outer
    refine ⟨_, ⟨left ++ right, List.map_append.symm, List.flatMap_append.symm, ?_⟩,
      lays.append lays'⟩
    exact List.forall_mem_append.2 ⟨readsLeft, readsRight⟩
  | items _ _ ihAbove ihBelow =>
    obtain ⟨_, ⟨left, rfl, rfl, readsLeft⟩, lays⟩ := ihAbove outer
    obtain ⟨_, ⟨right, rfl, rfl, readsRight⟩, lays'⟩ := ihBelow outer
    refine ⟨_, ⟨left ++ right, List.map_append.symm, List.flatMap_append.symm, ?_⟩,
      lays.append lays'⟩
    exact List.forall_mem_append.2 ⟨readsLeft, readsRight⟩

theorem tokens?_of_lays {text : List Char} {tokens : List Token}
    (lays : Lays .blockMappingStart 0 [] text tokens) :
    tokens? ('-' :: '-' :: '-' :: (newline 0 ++ (text ++ newline 0))) =
      some (.documentStart :: .blockMappingStart :: (tokens ++ [.blockEnd])) := by
  have mark := leads_documentStart [] (lays.begins (newline 0 ++ []))
  have members := lays.leads [.documentStart] (rfl : opened 0 [] = [0]) (Nat.le_refl 0)
    (⟨rfl, (by decide : '\x00' ≠ '#')⟩ : BeginsToken (headChar []))
  have noNul : '\x00' ∉ '-' :: '-' :: '-' :: (newline 0 ++ (text ++ newline 0)) := by
    simp [lays.noNul, newline, blanks]
  rw [List.append_nil] at mark members
  rw [tokens?_of_leads noNul ⟨rfl, (by decide : '-' ≠ '#')⟩ (mark.trans members)]
  simp [opening, opens, closings_self, blockEnds]

theorem ofTokens?_of_shows {text : List Char} {entries : List (Node × Node)}
    (shows : Shows 0 text (.members entries)) :
    (tokens? ('-' :: '-' :: '-' :: (newline 0 ++ (text ++ newline 0)))).bind Document.ofTokens? =
      some ⟨.mapping entries, []⟩ := by
  obtain ⟨tokens, reads, lays⟩ := exists_lays_of_shows shows []
  rw [tokens?_of_lays lays, Option.bind_some]
  exact ofTokens?_of_isRead (Content.isRead reads)

end ExperienceReplay.Yaml
