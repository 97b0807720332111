import ExperienceReplay.Proofs.RecordRing.Acceptance
import ExperienceReplay.Proofs.Records.Names

/-!
What is read of a ring has the fields of its schema and, with next states, one more for each state.
No two of these fields have one name, so that reading never enters anything over what it entered
before.
-/

namespace ExperienceReplay

theorem Records.mem_names_foldl_insert {entries : List (String × List Binary32)} {name : String}
    (records : Records) :
    name ∈ (entries.foldl (fun records entry => records.insert entry.1 entry.2) records).names ↔
      name ∈ records.names ∨ name ∈ entries.map Prod.fst := by
  induction entries generalizing records with
  | nil => simp
  | cons entry rest ih =>
    rw [List.foldl_cons, ih, ← isSome_get?_iff, get?_insert, ← isSome_get?_iff, List.map_cons,
      List.mem_cons]
    split
    next here => simp [here]
    next other => simp [other]

theorem Records.mem_names_ofList {entries : List (String × List Binary32)} {name : String} :
    name ∈ (ofList entries).names ↔ name ∈ entries.map Prod.fst := by
  rw [ofList, mem_names_foldl_insert]
  simp [names, empty]

namespace Schema

/-- The fields in which the states that follow are read, in the order of the states: one for each
state, as wide as the state. -/
inductive Following (nextStates : Bool) : List Field → List Field → Prop
  | nil : Following nextStates [] []
  | state {field : Field} {next : String} {schema following : List Field}
      (read : nextStates = true) (follows : Field.FollowedBy field.name next)
      (rest : Following nextStates schema following) :
      Following nextStates (field :: schema) (⟨next, field.dim⟩ :: following)
  | other {field : Field} {schema following : List Field}
      (unread : ¬(nextStates = true ∧ Field.Under "states" field.name))
      (rest : Following nextStates schema following) :
      Following nextStates (field :: schema) following

variable {nextStates : Bool} {schema following : List Field}

theorem exists_following (nextStates : Bool) (schema : List Field) :
    ∃ following, Following nextStates schema following := by
  induction schema with
  | nil => exact ⟨[], .nil⟩
  | cons field rest ih =>
    obtain ⟨following, rest⟩ := ih
    by_cases read : nextStates = true ∧ Field.Under "states" field.name
    · obtain ⟨next, follows⟩ := read.2.exists_followedBy
      exact ⟨_, .state read.1 follows rest⟩
    · exact ⟨_, .other read rest⟩

theorem Following.unique {others : List Field} (widens : Following nextStates schema following)
    (widens' : Following nextStates schema others) : following = others := by
  induction widens generalizing others with
  | nil =>
    cases widens'
    rfl
  | state read follows _ ih =>
    cases widens' with
    | state _ follows' rest => rw [follows.unique follows', ih rest]
    | other unread _ => exact absurd ⟨read, follows.under_states⟩ unread
  | other unread _ ih =>
    cases widens' with
    | state read follows _ => exact absurd ⟨read, follows.under_states⟩ unread
    | other _ rest => exact ih rest

theorem Following.exists_state (widens : Following nextStates schema following) {next : Field}
    (mem : next ∈ following) : nextStates = true ∧
      ∃ field ∈ schema, Field.FollowedBy field.name next.name ∧ next.dim = field.dim := by
  induction widens with
  | nil => cases mem
  | state read follows _ ih =>
    rcases List.mem_cons.1 mem with rfl | mem
    · exact ⟨read, _, List.mem_cons_self, follows, rfl⟩
    · obtain ⟨_, field, mem, state⟩ := ih mem
      exact ⟨read, field, List.mem_cons_of_mem _ mem, state⟩
  | other _ _ ih =>
    obtain ⟨read, field, mem, state⟩ := ih mem
    exact ⟨read, field, List.mem_cons_of_mem _ mem, state⟩

end Schema

namespace RecordRing

variable {ring : RecordRing} {layout : Layout} {history : History}

/-- Records in which each column is found under its name and, with next states, each state also
under the name that follows it: there it is read one slot further on. -/
structure Shows (ring : RecordRing) (slots : List Nat) (records : Records) : Prop where
  stored : ∀ column ∈ ring.columns, ∃ values, column.gather slots = .ok values ∧
    records.get? column.field.name = some values
  following : ring.nextStates → ∀ column ∈ ring.columns, ∀ next,
    Field.FollowedBy column.field.name next → ∃ values,
      column.gather (slots.map fun slot => (slot + 1) % ring.capacity) = .ok values ∧
        records.get? next = some values

theorem Layout.names_shown_perm (layout : Layout) (history : History) (slots : List Nat)
    {schema following : List Field}
    (widens : Schema.Following layout.nextStates schema following) :
    ((schema.flatMap (layout.shown history slots)).map Prod.fst).Perm
      ((schema ++ following).map Field.name) := by
  induction widens with
  | nil => exact .nil
  | @state field next schema following read follows _ ih =>
    obtain ⟨state, name⟩ := Field.followedBy_iff.1 follows
    have both : (layout.shown history slots field).map Prod.fst = [field.name, next] := by
      rw [Layout.shown, if_pos ⟨read, state⟩, name]
      rfl
    -- Here the name of the next state stands beside that of the state, there after the schema.
    have moved : (next :: (schema ++ following).map Field.name).Perm
        ((schema ++ ⟨next, field.dim⟩ :: following).map Field.name) := by
      simpa only [List.map_append, List.map_cons] using List.perm_middle.symm
    rw [List.flatMap_cons, List.map_append, both]
    exact ((ih.cons next).trans moved).cons field.name
  | @other field _ _ unread _ ih =>
    have alone : (layout.shown history slots field).map Prod.fst = [field.name] := by
      rw [Layout.shown, if_neg fun read => unread ⟨read.1, Field.isStateName_iff_under.1 read.2⟩]
      rfl
    rw [List.flatMap_cons, List.map_append, alone]
    exact ih.cons _

theorem Layout.distinct_widened (layout : Layout) {following : List Field}
    (widens : Schema.Following layout.nextStates layout.schema following) :
    ((layout.schema ++ following).map Field.name).Nodup :=
  (layout.names_shown_perm [] [] widens).nodup_iff.1 (layout.distinct_shown [] [])

theorem Holds.lt_of_read (holds : ring.Holds layout history) {slots : List Nat}
    {records : Records} (read : ring.read slots = .ok records) :
    ∀ slot ∈ slots, slot < layout.capacity := by
  unfold RecordRing.read at read
  split at read
  next => cases read
  next inside =>
    rw [holds.capacity_eq] at inside
    simpa using List.find?_eq_none.1 inside

theorem Holds.exists_read (holds : ring.Holds layout history) {following : List Field}
    (widens : Schema.Following layout.nextStates layout.schema following) {slots : List Nat}
    (below : ∀ slot ∈ slots, slot < layout.capacity) :
    ∃ records, ring.read slots = .ok records ∧
      Schema.Matches (layout.schema ++ following) records slots.length ∧
      ring.Shows slots records := by
  have total {field : Field} (mem : field ∈ layout.schema) (place : Nat → Nat) :
      (slots.map fun slot => history.row layout.capacity field (place slot)).flatten.length =
        slots.length * field.dim := by
    rw [Records.length_flatten_of_widths
      (List.forall_mem_map.2 fun slot _ => holds.length_row mem (place slot)), List.length_map]
  refine ⟨_, holds.read below, ⟨fun name => ?_, ?_⟩, ?_, ?_⟩
  · rw [Records.mem_names_ofList]
    exact (layout.names_shown_perm history slots widens).mem_iff
  · intro field mem
    rcases List.mem_append.1 mem with mem | mem
    · exact ⟨_, layout.get?_ofList_shown history slots mem, total mem id⟩
    · obtain ⟨next, state, mem, follows, width⟩ := widens.exists_state mem
      obtain ⟨isState, name⟩ := Field.followedBy_iff.1 follows
      rw [name, width]
      exact ⟨_, layout.get?_nextStateName_ofList_shown history slots mem next isState,
        total mem fun slot => (slot + 1) % layout.capacity⟩
  · intro column mem
    exact ⟨_, holds.gather mem below, layout.get?_ofList_shown history slots (holds.field_mem mem)⟩
  · intro next column mem name follows
    obtain ⟨isState, rfl⟩ := Field.followedBy_iff.1 follows
    rw [holds.nextStates_eq] at next
    rw [holds.capacity_eq]
    have inside : ∀ slot ∈ slots.map fun slot => (slot + 1) % layout.capacity,
        slot < layout.capacity :=
      List.forall_mem_map.2 fun slot _ => Nat.mod_lt _ layout.capacity_pos
    refine ⟨_, holds.gather mem inside, ?_⟩
    rw [List.map_map]
    exact layout.get?_nextStateName_ofList_shown history slots (holds.field_mem mem) next isState

end RecordRing

end ExperienceReplay
