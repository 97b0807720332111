import ExperienceReplay.Config.Basic
import ExperienceReplay.Yaml.Node.OfTokens
import ExperienceReplay.Yaml.Scalar
import ExperienceReplay.Yaml.Token.Scan
import ExperienceReplay.Yaml.Written

/-!
Configurations as YAML documents.
-/

namespace ExperienceReplay.Config

def scheduleLines : Option BetaSchedule → String
  | none => "beta_schedule: ~\n"
  | some schedule =>
    "beta_schedule:\n  beta_final: " ++ Yaml.writeNumber schedule.betaFinal ++
      "\n  n_updates_final: " ++ schedule.updatesFinal.repr ++ "\n"

def fieldLines (field : Field) : String :=
  "  - name: " ++ Yaml.writeText field.name ++ "\n    dim: " ++ field.dim.repr ++ "\n"

def fieldsLines (fields : List Field) : String :=
  if fields.isEmpty then "fields: []\n"
  else "fields:\n" ++ String.join (fields.map fieldLines)

def toYaml (config : Config) : String :=
  "---\ncapacity: " ++ config.capacity.repr ++ "\nalpha: " ++ Yaml.writeNumber config.alpha ++
    "\nbeta: " ++ Yaml.writeNumber config.beta ++ "\n" ++ scheduleLines config.betaSchedule ++
    "next_states: " ++ Yaml.writeBool config.nextStates ++ "\nseed: " ++ config.seed.toNat.repr ++
    "\n" ++ fieldsLines config.fields

open Yaml (Document Node Value)

def scalar? (document : Document) (node : Node) : Option Value := do
  match ← document.resolve? node with
  | .scalar text plain tag => Yaml.value? text plain tag
  | _ => none

def natural? (document : Document) (node : Node) : Option Nat := do
  match ← scalar? document node with
  | .integer n => if 0 ≤ n ∧ n < 2 ^ 64 then some n.toNat else none
  | _ => none

def number? (document : Document) (node : Node) : Option Binary32 := do
  match ← scalar? document node with
  | .number x => some x
  | .integer n =>
    if Yaml.isWord n then
      some (.ofQuotient (n < 0) (n.natAbs * Binary32.unitsPerOne) 1)
    else none
  | _ => none

def boolean? (document : Document) (node : Node) : Option Bool := do
  match ← scalar? document node with
  | .boolean b => some b
  | _ => none

/-- The text of any scalar, whatever it stands for. -/
def text? (document : Document) (node : Node) : Option String := do
  match ← document.resolve? node with
  | .scalar text _ _ => some text
  | _ => none

/-- The members of a structure by their names: those of a mapping, where each name may be missing
but not be given twice, or the items of a sequence, which are all of them. Other keys of a mapping
are passed over. -/
def members? (document : Document) (names : List String) (node : Node) :
    Option (List (Option Node)) := do
  match ← document.resolve? node with
  | .mapping entries =>
    let entries ← entries.mapM fun (key, value) => do return (← text? document key, value)
    if names.any fun name => 1 < (entries.map Prod.fst).count name then none
    else some (names.map fun name => List.lookup name entries)
  | .sequence items => if items.length = names.length then some (items.map some) else none
  | _ => none

def isNull (text : String) (plain : Bool) (tag : Option Yaml.Tag) : Bool :=
  plain && (text == "~" || text == "null") && (tag.all (· == ⟨"!!", "null"⟩))

def schedule? (document : Document) (node : Node) : Option (Option BetaSchedule) := do
  match ← document.resolve? node with
  | .scalar text plain tag => if isNull text plain tag then some none else none
  | node =>
    match ← members? document ["beta_final", "n_updates_final"] node with
    | [some betaFinal, some updatesFinal] =>
      return some ⟨← number? document betaFinal, ← natural? document updatesFinal⟩
    | _ => none

def field? (document : Document) (node : Node) : Option Field := do
  match ← members? document ["name", "dim"] node with
  | [some name, some dim] => return ⟨← text? document name, ← natural? document dim⟩
  | _ => none

def fields? (document : Document) (node : Node) : Option (List Field) := do
  match ← document.resolve? node with
  | .sequence items => items.mapM (field? document)
  | _ => none

def keys : List String :=
  ["capacity", "alpha", "beta", "beta_schedule", "next_states", "seed", "fields"]

def ofDocument? (document : Document) : Option Config := do
  match ← members? document keys document.root with
  | [some capacity, some alpha, some beta, betaSchedule, some nextStates, some seed,
      some fields] =>
    return {
      capacity := ← natural? document capacity
      alpha := ← number? document alpha
      beta := ← number? document beta
      betaSchedule := ← match betaSchedule with
        | some node => schedule? document node
        | none => some none
      nextStates := ← boolean? document nextStates
      seed := UInt64.ofNat (← natural? document seed)
      fields := ← fields? document fields }
  | _ => none

def ofYaml? (text : String) : Option Config := do
  ofDocument? (← Document.ofTokens? (← Yaml.tokens? text.toList))

inductive LoadError where
  | noFile
  | malformed
deriving DecidableEq

def load : Option ByteArray → Except LoadError Config
  | none => .error .noFile
  | some bytes =>
    match (String.fromUTF8? bytes).bind ofYaml? with
    | some config => .ok config
    | none => .error .malformed

def same (a b : Config) : Bool :=
  a.capacity == b.capacity && a.alpha.same b.alpha && a.beta.same b.beta &&
    (match a.betaSchedule, b.betaSchedule with
      | none, none => true
      | some s, some t => s.betaFinal.same t.betaFinal && s.updatesFinal == t.updatesFinal
      | _, _ => false) &&
    a.nextStates == b.nextStates && a.seed == b.seed && a.fields == b.fields

end ExperienceReplay.Config
