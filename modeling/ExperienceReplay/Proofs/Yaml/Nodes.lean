import ExperienceReplay.Yaml.Node.OfTokens

/-!
Nodes from their tokens. Main statements: block collections of nodes that are read are read, and a
document is the node between its start and its end.
-/

namespace ExperienceReplay.Yaml

def separators : List Token :=
  [.key, .value, .blockEntry, .blockEnd, .directive, .documentStart, .documentEnd]

/-- A node is read of its tokens, whatever follows, with fuel for four times as many tokens. -/
structure IsRead (tokens : List Token) (node : Node) : Prop where
  begins : ∃ token more, tokens = token :: more ∧ token ∉ separators
  read : ∀ (fuel : Nat) (rest : List Token) (names : List (String × Nat))
    (anchored : List (Nat × Node)) (indentless : Bool), 4 * tokens.length ≤ fuel →
    (Read.node fuel true indentless).run ⟨tokens ++ rest, names, anchored⟩ =
      some (node, ⟨rest, names, anchored⟩)

theorem isRead_scalar (text : String) (plain : Bool) :
    IsRead [.scalar text plain] (.scalar text plain none) where
  begins := ⟨_, _, rfl, by simp [separators]⟩
  read fuel rest names anchored indentless enough := by
    have : 0 < fuel := by
      rw [List.length_singleton] at enough
      omega
    obtain ⟨fuel, rfl⟩ := Nat.exists_eq_add_one.2 this
    rw [Read.node]
    rfl

theorem isRead_emptySequence :
    IsRead [.flowSequenceStart, .flowSequenceEnd] (.sequence []) where
  begins := ⟨_, _, rfl, by simp [separators]⟩
  read fuel rest names anchored indentless enough := by
    obtain ⟨fuel, rfl⟩ := Nat.exists_eq_add_of_le' (Nat.le_trans (by decide : 2 ≤ 8) enough)
    rw [Read.node]
    rfl

namespace Read

variable {tokens rest : List Token} {names : List (String × Nat)} {anchored : List (Nat × Node)}

theorem run_peek : peek.run ⟨tokens, names, anchored⟩ =
    some (tokens.head?, ⟨tokens, names, anchored⟩) :=
  rfl

theorem run_isNext (ends : List Token) : (isNext ends).run ⟨tokens, names, anchored⟩ =
    some (tokens.head?.any ends.contains, ⟨tokens, names, anchored⟩) :=
  rfl

theorem accept_self (token : Token) :
    (accept token).run ⟨token :: rest, names, anchored⟩ = some (true, ⟨rest, names, anchored⟩) := by
  rw [accept, StateT.run_bind, run_peek]
  simp only [Option.bind_eq_bind, Option.bind_some, List.head?_cons, beq_self_eq_true, if_true]
  rfl

theorem accept_other {token other : Token} (different : token ≠ other) :
    (accept other).run ⟨token :: rest, names, anchored⟩ =
      some (false, ⟨token :: rest, names, anchored⟩) := by
  have : (some token == some other) = false := beq_false_of_ne (by simpa using different)
  rw [accept, StateT.run_bind, run_peek]
  simp only [Option.bind_eq_bind, Option.bind_some, List.head?_cons, this]
  rfl

theorem expect_self (token : Token) :
    (expect token).run ⟨token :: rest, names, anchored⟩ = some ((), ⟨rest, names, anchored⟩) := by
  rw [expect, StateT.run_bind, accept_self]
  rfl

theorem nodeUnless_of_isRead {node : Node} (isRead : IsRead tokens node) {fuel : Nat}
    (enough : 4 * tokens.length < fuel) {ends : List Token}
    (among : ends ⊆ separators) (indentless : Bool) :
    (nodeUnless fuel ends true indentless).run ⟨tokens ++ rest, names, anchored⟩ =
      some (node, ⟨rest, names, anchored⟩) := by
  obtain ⟨fuel, rfl⟩ := Nat.exists_eq_add_one.2 (Nat.zero_lt_of_lt enough)
  obtain ⟨token, more, split, other⟩ := isRead.begins
  have none : ends.contains token = false := by
    rw [Bool.eq_false_iff]
    exact fun mem => other (among (List.contains_iff_mem.1 mem))
  have next : (tokens ++ rest).head?.any ends.contains = false := by
    rw [split, List.cons_append, List.head?_cons, Option.any_some, none]
  rw [nodeUnless, StateT.run_bind, run_isNext, next]
  exact isRead.read fuel rest names anchored indentless (Nat.le_of_lt_succ enough)

end Read

structure Member where
  key : String
  tokens : List Token
  node : Node

namespace Member

def allTokens (m : Member) : List Token := .key :: .scalar m.key true :: .value :: m.tokens

def entry (m : Member) : Node × Node := (.scalar m.key true none, m.node)

end Member

theorem blockEntries_of_isRead {members : List Member}
    (reads : ∀ m ∈ members, IsRead m.tokens m.node) :
    ∀ (fuel : Nat) (rest : List Token) (names : List (String × Nat)) (anchored : List (Nat × Node)),
      4 * (members.flatMap Member.allTokens).length < fuel →
      (Read.blockEntries fuel).run
          ⟨members.flatMap Member.allTokens ++ .blockEnd :: rest, names, anchored⟩ =
        some (members.map Member.entry, ⟨rest, names, anchored⟩) := by
  induction members with
  | nil =>
    intro fuel rest names anchored enough
    obtain ⟨fuel, rfl⟩ := Nat.exists_eq_add_one.2 (Nat.zero_lt_of_lt enough)
    rw [List.flatMap_nil, List.nil_append, Read.blockEntries, StateT.run_bind, Read.accept_self]
    rfl
  | cons m members ih =>
    intro fuel rest names anchored enough
    obtain ⟨here, reads⟩ := List.forall_mem_cons.1 reads
    obtain ⟨fuel, rfl⟩ := Nat.exists_eq_add_one.2 (Nat.zero_lt_of_lt enough)
    rw [List.flatMap_cons, List.length_append] at enough
    have length : m.allTokens.length = m.tokens.length + 3 := rfl
    have key (more : List Token) :
        (Read.nodeUnless fuel [.key, .value, .blockEnd] true true).run
            ⟨.scalar m.key true :: more, names, anchored⟩ =
          some (.scalar m.key true none, ⟨more, names, anchored⟩) :=
      Read.nodeUnless_of_isRead (isRead_scalar m.key true)
        (by rw [List.length_singleton]; omega) (by simp [separators]) true
    have value (more : List Token) :
        (Read.nodeUnless fuel [.key, .value, .blockEnd] true true).run
            ⟨m.tokens ++ more, names, anchored⟩ =
          some (m.node, ⟨more, names, anchored⟩) :=
      Read.nodeUnless_of_isRead here (by omega) (by simp [separators]) true
    rw [List.flatMap_cons, Member.allTokens, Read.blockEntries]
    simp only [StateT.run_bind, List.cons_append, List.append_assoc, Read.accept_other, ne_eq,
      reduceCtorEq, not_false_eq_true, Option.bind_eq_bind, Option.bind_some, Bool.false_eq_true,
      if_false, Read.accept_self, Read.run_isNext, if_true, key, value,
      ih reads fuel rest names anchored (by omega)]
    rfl

theorem isRead_mapping {members : List Member} (reads : ∀ m ∈ members, IsRead m.tokens m.node) :
    IsRead (.blockMappingStart :: (members.flatMap Member.allTokens ++ [.blockEnd]))
      (.mapping (members.map Member.entry)) where
  begins := ⟨_, _, rfl, by simp [separators]⟩
  read fuel rest names anchored indentless enough := by
    simp only [List.length_cons, List.length_append] at enough
    obtain ⟨fuel, rfl⟩ := Nat.exists_eq_add_one.2 (Nat.lt_of_lt_of_le (by omega) enough)
    have entries := blockEntries_of_isRead reads fuel rest names anchored (by omega)
    rw [List.cons_append, List.append_assoc, Read.node]
    change ((Read.blockEntries fuel).run
      ⟨members.flatMap Member.allTokens ++ .blockEnd :: rest, names, anchored⟩).bind
      (fun p => some (Node.mapping p.1, p.2)) = _
    rw [entries, Option.bind_some]

theorem blockItems_of_isRead {items : List (List Token × Node)}
    (reads : ∀ item ∈ items, IsRead item.1 item.2) :
    ∀ (fuel : Nat) (rest : List Token) (names : List (String × Nat)) (anchored : List (Nat × Node)),
      4 * (items.flatMap fun item => .blockEntry :: item.1).length < fuel →
      (Read.blockItems fuel).run
          ⟨(items.flatMap fun item => .blockEntry :: item.1) ++ .blockEnd :: rest, names,
            anchored⟩ =
        some (items.map Prod.snd, ⟨rest, names, anchored⟩) := by
  induction items with
  | nil =>
    intro fuel rest names anchored enough
    obtain ⟨fuel, rfl⟩ := Nat.exists_eq_add_one.2 (Nat.zero_lt_of_lt enough)
    rw [List.flatMap_nil, List.nil_append, Read.blockItems, StateT.run_bind, Read.accept_self]
    rfl
  | cons item items ih =>
    intro fuel rest names anchored enough
    obtain ⟨here, reads⟩ := List.forall_mem_cons.1 reads
    obtain ⟨fuel, rfl⟩ := Nat.exists_eq_add_one.2 (Nat.zero_lt_of_lt enough)
    rw [List.flatMap_cons, List.length_append, List.length_cons] at enough
    have value (more : List Token) :
        (Read.nodeUnless fuel [.blockEntry, .blockEnd] true false).run
            ⟨item.1 ++ more, names, anchored⟩ =
          some (item.2, ⟨more, names, anchored⟩) :=
      Read.nodeUnless_of_isRead here (by omega) (by simp [separators]) false
    rw [List.flatMap_cons, Read.blockItems]
    simp only [StateT.run_bind, List.cons_append, List.append_assoc, Read.accept_other, ne_eq,
      reduceCtorEq, not_false_eq_true, Option.bind_eq_bind, Option.bind_some, Bool.false_eq_true,
      if_false, Read.expect_self, value,
      ih reads fuel rest names anchored (by omega)]
    rfl

theorem isRead_sequence {items : List (List Token × Node)}
    (reads : ∀ item ∈ items, IsRead item.1 item.2) :
    IsRead
      (.blockSequenceStart :: ((items.flatMap fun item => .blockEntry :: item.1) ++ [.blockEnd]))
      (.sequence (items.map Prod.snd)) where
  begins := ⟨_, _, rfl, by simp [separators]⟩
  read fuel rest names anchored indentless enough := by
    simp only [List.length_cons, List.length_append] at enough
    obtain ⟨fuel, rfl⟩ := Nat.exists_eq_add_one.2 (Nat.lt_of_lt_of_le (by omega) enough)
    have values := blockItems_of_isRead reads fuel rest names anchored (by omega)
    rw [List.cons_append, List.append_assoc, Read.node]
    change ((Read.blockItems fuel).run
      ⟨(items.flatMap fun item => .blockEntry :: item.1) ++ .blockEnd :: rest, names,
        anchored⟩).bind (fun p => some (Node.sequence p.1, p.2)) = _
    rw [values, Option.bind_some]

theorem Read.run_rootAfterMark {tokens : List Token} {root : Node} (isRead : IsRead tokens root)
    {fuel : Nat} (enough : 4 * tokens.length ≤ fuel) (names : List (String × Nat))
    (anchored : List (Nat × Node)) :
    (rootAfterMark fuel).run ⟨tokens, names, anchored⟩ = some (root, ⟨[], names, anchored⟩) := by
  obtain ⟨token, more, rfl, other⟩ := isRead.begins
  have read := isRead.read fuel [] names anchored false enough
  rw [List.append_nil] at read
  simp only [separators, List.mem_cons, not_or] at other
  rw [rootAfterMark, StateT.run_bind, run_peek]
  simp only [Option.bind_eq_bind, Option.bind_some, List.head?_cons]
  split
  · contradiction
  · simp_all
  · simp_all
  · simp_all
  · exact read

theorem ofTokens?_of_isRead {tokens : List Token} {root : Node} (isRead : IsRead tokens root) :
    Document.ofTokens? (.documentStart :: tokens) = some ⟨root, []⟩ := by
  have read := Read.run_rootAfterMark isRead
    (by omega : 4 * tokens.length ≤ 4 * (tokens.length + 1) + 4) [] []
  rw [Document.ofTokens?, List.length_cons, Read.root, StateT.run_bind, Read.run_peek]
  simp only [Option.bind_eq_bind, Option.bind_some, List.head?_cons, StateT.run_bind]
  change ((Read.rootAfterMark _).run ⟨tokens, [], []⟩).bind _ = _
  rw [read]
  rfl

end ExperienceReplay.Yaml
