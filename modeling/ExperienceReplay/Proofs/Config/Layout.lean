import ExperienceReplay.Config.Yaml
import ExperienceReplay.Proofs.Yaml.Blocks

/-!
The layout of a written configuration. Main statement: what is scanned and read of its text is the
mapping of its members.
-/

namespace ExperienceReplay.Config

open Yaml Yaml.Scanner

def structureNode (names : List String) (nodes : List Node) : Node :=
  .mapping ((names.map keyNode).zip nodes)

def naturalNode (n : Nat) : Node := .scalar n.repr true none

def numberNode (x : Binary32) : Node := .scalar (writeNumber x) true none

def booleanNode (b : Bool) : Node := .scalar (writeBool b) true none

def textNode (text : String) : Node := .scalar text (!needsQuotes text) none

def scheduleNode : Option BetaSchedule → Node
  | none => .scalar "~" true none
  | some schedule =>
    structureNode ["beta_final", "n_updates_final"]
      [numberNode schedule.betaFinal, naturalNode schedule.updatesFinal]

def fieldNode (field : Field) : Node :=
  structureNode ["name", "dim"] [textNode field.name, naturalNode field.dim]

def nodes (config : Config) : List Node :=
  [naturalNode config.capacity, numberNode config.alpha, numberNode config.beta,
    scheduleNode config.betaSchedule, booleanNode config.nextStates,
    naturalNode config.seed.toNat, .sequence (config.fields.map fieldNode)]

theorem isKey_of_mem : ∀ key ∈ keys ++ ["beta_final", "n_updates_final", "name", "dim"],
    IsKey key.toList := by
  unfold IsKey
  decide

def LinesShow (lines : String) (entries : List (Node × Node)) : Prop :=
  ∃ text, lines.toList = text ++ newline 0 ∧ Shows 0 text (.members entries)

theorem LinesShow.append {above below : String} {left right : List (Node × Node)}
    (first : LinesShow above left) (second : LinesShow below right) :
    LinesShow (above ++ below) (left ++ right) := by
  obtain ⟨text, split, shows⟩ := first
  obtain ⟨text', split', shows'⟩ := second
  refine ⟨_, ?_, shows.members shows'⟩
  rw [String.toList_append, split, split', List.append_assoc, List.append_assoc, List.append_assoc]

def line (key written : String) : String := key ++ ": " ++ written ++ "\n"

theorem linesShow_line {key written text : String} {plain : Bool} (isKey : IsKey key.toList)
    (isWritten : IsWritten written.toList text plain) :
    LinesShow (line key written) [(keyNode key, .scalar text plain none)] := by
  refine ⟨_, ?_, .scalar isKey isWritten⟩
  simp [line, newline, blanks]

theorem linesShow_scheduleLines (schedule : Option BetaSchedule) :
    LinesShow (scheduleLines schedule) [(keyNode "beta_schedule", scheduleNode schedule)] := by
  have isKey : IsKey "beta_schedule".toList := isKey_of_mem _ (by decide)
  cases schedule with
  | none =>
    have same : scheduleLines none = line "beta_schedule" "~" := by decide
    rw [same]
    exact linesShow_line isKey isWritten_null
  | some schedule =>
    have final : Shows 2 _ (.members [(keyNode "beta_final", numberNode schedule.betaFinal)]) :=
      .scalar (isKey_of_mem "beta_final" (by decide)) (isWritten_writeNumber schedule.betaFinal)
    have updates :
        Shows 2 _ (.members [(keyNode "n_updates_final", naturalNode schedule.updatesFinal)]) :=
      .scalar (isKey_of_mem "n_updates_final" (by decide)) (isWritten_repr schedule.updatesFinal)
    refine ⟨_, ?_, .nested isKey (by decide) (final.members updates)⟩
    unfold scheduleLines
    simp [newline, blanks]

def fieldText (field : Field) : List Char :=
  '-' :: ' ' :: ("name".toList ++ ':' :: ' ' :: (writeText field.name).toList ++
    (newline 4 ++ ("dim".toList ++ ':' :: ' ' :: field.dim.repr.toList)))

theorem toList_fieldLines (field : Field) :
    (fieldLines field).toList = blanks 2 ++ (fieldText field ++ newline 0) := by
  unfold fieldLines fieldText
  simp [newline, blanks]

theorem shows_fieldText (field : Field) : Shows 2 (fieldText field) (.items [fieldNode field]) := by
  have name : Shows 4 _ (.members [(keyNode "name", textNode field.name)]) :=
    .scalar (isKey_of_mem "name" (by decide)) (isWritten_writeText field.name)
  have dim : Shows 4 _ (.members [(keyNode "dim", naturalNode field.dim)]) :=
    .scalar (isKey_of_mem "dim" (by decide)) (isWritten_repr field.dim)
  exact .item (by decide) (name.members dim)

def fieldsText (fields : List Field) : List Char :=
  (newline 2).intercalate (fields.map fieldText)

theorem fieldsText_cons_cons (field next : Field) (fields : List Field) :
    fieldsText (field :: next :: fields) =
      fieldText field ++ (newline 2 ++ fieldsText (next :: fields)) := by
  rw [fieldsText, List.map_cons, List.map_cons, List.intercalate_cons_cons, List.append_assoc]
  rfl

theorem toList_join_fieldLines (field : Field) (fields : List Field) :
    (String.join ((field :: fields).map fieldLines)).toList =
      blanks 2 ++ (fieldsText (field :: fields) ++ newline 0) := by
  induction fields generalizing field with
  | nil => simp [toList_fieldLines, fieldsText]
  | cons next fields ih =>
    rw [List.map_cons, String.join_cons, String.toList_append, ih, toList_fieldLines,
      fieldsText_cons_cons]
    simp [newline, blanks]

theorem shows_fieldsText (field : Field) (fields : List Field) :
    Shows 2 (fieldsText (field :: fields)) (.items ((field :: fields).map fieldNode)) := by
  induction fields generalizing field with
  | nil => simpa [fieldsText] using shows_fieldText field
  | cons next fields ih =>
    rw [fieldsText_cons_cons]
    exact (shows_fieldText field).items (ih next)

theorem linesShow_fieldsLines (fields : List Field) :
    LinesShow (fieldsLines fields) [(keyNode "fields", .sequence (fields.map fieldNode))] := by
  have isKey := isKey_of_mem "fields" (by decide)
  cases fields with
  | nil => exact ⟨_, rfl, .emptySequence isKey⟩
  | cons field fields =>
    refine ⟨_, ?_, .nested isKey (by decide) (shows_fieldsText field fields)⟩
    have before : "fields:\n".toList = "fields".toList ++ ':' :: newline 0 := by
      decide
    rw [fieldsLines, List.isEmpty_cons, if_neg (by decide), String.toList_append,
      toList_join_fieldLines, before]
    simp [newline, blanks]

theorem toYaml_eq (config : Config) :
    config.toYaml = "---\n" ++ (line "capacity" config.capacity.repr ++
      (line "alpha" (writeNumber config.alpha) ++ (line "beta" (writeNumber config.beta) ++
      (scheduleLines config.betaSchedule ++ (line "next_states" (writeBool config.nextStates) ++
      (line "seed" config.seed.toNat.repr ++ fieldsLines config.fields)))))) := by
  have capacity : "---\ncapacity: " = "---\n" ++ ("capacity" ++ ": ") := by decide
  have alpha : "\nalpha: " = "\n" ++ ("alpha" ++ ": ") := by decide
  have beta : "\nbeta: " = "\n" ++ ("beta" ++ ": ") := by decide
  have nextStates : "next_states: " = "next_states" ++ ": " := by decide
  have seed : "\nseed: " = "\n" ++ ("seed" ++ ": ") := by decide
  unfold toYaml line
  rw [capacity, alpha, beta, nextStates, seed]
  simp only [String.append_assoc]

theorem linesShow_members (config : Config) :
    ∃ lines, config.toYaml = "---\n" ++ lines ∧
      LinesShow lines ((keys.map keyNode).zip config.nodes) := by
  refine ⟨_, config.toYaml_eq, ?_⟩
  exact (linesShow_line (isKey_of_mem "capacity" (by decide)) (isWritten_repr _)).append
    ((linesShow_line (isKey_of_mem "alpha" (by decide)) (isWritten_writeNumber _)).append
    ((linesShow_line (isKey_of_mem "beta" (by decide)) (isWritten_writeNumber _)).append
    ((linesShow_scheduleLines _).append
    ((linesShow_line (isKey_of_mem "next_states" (by decide)) (isWritten_writeBool _)).append
    ((linesShow_line (isKey_of_mem "seed" (by decide)) (isWritten_repr _)).append
    (linesShow_fieldsLines _))))))

theorem ofTokens?_toYaml (config : Config) :
    (tokens? config.toYaml.toList).bind Document.ofTokens? =
      some ⟨structureNode keys config.nodes, []⟩ := by
  obtain ⟨lines, split, text, lines_eq, shows⟩ := config.linesShow_members
  rw [split, String.toList_append, lines_eq]
  exact ofTokens?_of_shows shows

end ExperienceReplay.Config
