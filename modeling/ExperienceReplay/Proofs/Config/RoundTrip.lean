import ExperienceReplay.Binary32.Bits
import ExperienceReplay.Proofs.Binary32.Order
import ExperienceReplay.Proofs.Config.Layout

/-!
Configurations that were written are loaded again. Main statement: all of a configuration comes
back but numbers that are rounded away when they are read in double precision first.
-/

namespace ExperienceReplay

namespace Yaml

def IsRoundedAway : Binary32 → Prop
  | .finite _ magnitude => Decimal.IsRoundedAway magnitude
  | _ => False

instance : DecidablePred IsRoundedAway
  | .finite _ magnitude => inferInstanceAs (Decidable (Decimal.IsRoundedAway magnitude))
  | .infinite _ => inferInstanceAs (Decidable False)
  | .nan => inferInstanceAs (Decidable False)

theorem reread_same_iff {x : Binary32} (number : x ≠ .nan) :
    (reread x).same x = true ↔ ¬ IsRoundedAway x := by
  cases x with
  | nan => exact absurd rfl number
  | infinite negative =>
    exact iff_of_true
      (Binary32.same_of_le_of_le (Binary32.le_refl number) (Binary32.le_refl number)) id
  | finite negative magnitude =>
    exact Binary32.same_ofQuotient_iff.trans (Decimal.toBinary32_readUnits_iff negative)

end Yaml

namespace Config

open Yaml

structure IsSized (config : Config) : Prop where
  capacity : config.capacity < 2 ^ 64
  updatesFinal : ∀ schedule ∈ config.betaSchedule, schedule.updatesFinal < 2 ^ 64
  dims : ∀ field ∈ config.fields, field.dim < 2 ^ 64

def numbers (config : Config) : List Binary32 := config.alpha :: config.betas

def reread (config : Config) : Config :=
  { config with
    alpha := Yaml.reread config.alpha
    beta := Yaml.reread config.beta
    betaSchedule := config.betaSchedule.map fun schedule =>
      { schedule with betaFinal := Yaml.reread schedule.betaFinal } }

variable (document : Document)

theorem scalar?_plain (text : String) :
    scalar? document (.scalar text true none) = some (plainValue text) :=
  rfl

theorem natural?_of_scalar? {node : Node} {n : Int}
    (integer : scalar? document node = some (.integer n)) :
    natural? document node = if 0 ≤ n ∧ n < 2 ^ 64 then some n.toNat else none := by
  rw [natural?, integer]
  rfl

theorem natural?_naturalNode {n : Nat} (small : n < 2 ^ 64) :
    natural? document (naturalNode n) = some n := by
  have integer : scalar? document (naturalNode n) = some (.integer n) := by
    rw [naturalNode, scalar?_plain, plainValue_repr small]
  rw [natural?_of_scalar? document integer, if_pos (by omega), Int.toNat_natCast]

theorem number?_numberNode (x : Binary32) :
    number? document (numberNode x) = some (Yaml.reread x) := by
  rw [number?, numberNode, scalar?_plain, plainValue_writeNumber]
  rfl

theorem boolean?_booleanNode (b : Bool) : boolean? document (booleanNode b) = some b := by
  cases b <;> rfl

theorem text?_textNode (text : String) : text? document (textNode text) = some text :=
  rfl

theorem map_lookup_zip {names : List String} {nodes : List Node} (distinct : names.Nodup)
    (length : names.length = nodes.length) :
    (names.map fun name => List.lookup name (names.zip nodes)) = nodes.map some := by
  induction names generalizing nodes with
  | nil =>
    obtain rfl := List.eq_nil_of_length_eq_zero length.symm
    rfl
  | cons name names ih =>
    obtain ⟨node, nodes, rfl⟩ := List.exists_cons_of_length_eq_add_one length.symm
    obtain ⟨fresh, distinct⟩ := List.nodup_cons.1 distinct
    have others : ∀ other ∈ names,
        List.lookup other ((name, node) :: names.zip nodes) =
          List.lookup other (names.zip nodes) := by
      intro other mem
      have : (other == name) = false := beq_false_of_ne fun same => fresh (same ▸ mem)
      rw [List.lookup_cons, this]
    rw [List.zip_cons_cons, List.map_cons, List.map_congr_left others,
      ih distinct (Nat.succ_inj.1 length), List.lookup_cons_self, List.map_cons]

theorem mapM_text?_zip (names : List String) (nodes : List Node) :
    (((names.map keyNode).zip nodes).mapM fun (key, value) => do
      return (← text? document key, value)) = some (names.zip nodes) := by
  induction names generalizing nodes with
  | nil => rfl
  | cons name names ih =>
    cases nodes with
    | nil => rfl
    | cons node nodes =>
      rw [List.map_cons, List.zip_cons_cons, List.mapM_cons, ih]
      rfl

theorem members?_structureNode {names : List String} {nodes : List Node} (distinct : names.Nodup)
    (length : names.length = nodes.length) :
    members? document names (structureNode names nodes) = some (nodes.map some) := by
  have once : (names.any fun name => 1 < ((names.zip nodes).map Prod.fst).count name) = false := by
    rw [List.map_fst_zip (Nat.le_of_eq length), List.any_eq_false]
    intro name _
    have := List.nodup_iff_count.1 distinct name
    simpa using this
  rw [members?]
  change ((((names.map keyNode).zip nodes).mapM fun ((key, value) : Node × Node) => do
    return (← text? document key, value)).bind _) = _
  rw [mapM_text?_zip, Option.bind_some, once, map_lookup_zip distinct length]
  rfl

theorem schedule?_scheduleNode {schedule : Option BetaSchedule}
    (small : ∀ s ∈ schedule, s.updatesFinal < 2 ^ 64) :
    schedule? document (scheduleNode schedule) =
      some (schedule.map fun s => { s with betaFinal := Yaml.reread s.betaFinal }) := by
  cases schedule with
  | none => rfl
  | some schedule =>
    have members := members?_structureNode document
      (by decide : ["beta_final", "n_updates_final"].Nodup)
      (rfl : _ = [numberNode schedule.betaFinal, naturalNode schedule.updatesFinal].length)
    have updates := natural?_naturalNode document (small schedule rfl)
    have resolved : document.resolve? (scheduleNode (some schedule)) =
        some (scheduleNode (some schedule)) := rfl
    rw [schedule?, resolved]
    simp only [Option.bind_eq_bind, Option.bind_some]
    split
    next scalar => cases scalar
    next =>
      rw [scheduleNode, members]
      simp only [List.map_cons, List.map_nil, Option.bind_some, number?_numberNode, updates]
      rfl

theorem field?_fieldNode {field : Field} (small : field.dim < 2 ^ 64) :
    field? document (fieldNode field) = some field := by
  have members := members?_structureNode document (by decide : ["name", "dim"].Nodup)
    (rfl : _ = [textNode field.name, naturalNode field.dim].length)
  have dim := natural?_naturalNode document small
  rw [field?, fieldNode, members]
  simp only [List.map_cons, List.map_nil, Option.bind_eq_bind, Option.bind_some, text?_textNode,
    dim]
  rfl

theorem fields?_sequence {fields : List Field} (small : ∀ field ∈ fields, field.dim < 2 ^ 64) :
    fields? document (.sequence (fields.map fieldNode)) = some fields := by
  change (fields.map fieldNode).mapM (field? document) = some fields
  induction fields with
  | nil => rfl
  | cons field fields ih =>
    obtain ⟨here, small⟩ := List.forall_mem_cons.1 small
    rw [List.map_cons, List.mapM_cons, field?_fieldNode document here, ih small]
    rfl

theorem ofDocument?_of_root {config : Config} (sized : config.IsSized)
    (root : document.root = structureNode keys config.nodes) :
    ofDocument? document = some config.reread := by
  have members := members?_structureNode document (by decide : keys.Nodup)
    (rfl : _ = config.nodes.length)
  rw [ofDocument?, root, members]
  simp only [nodes, List.map_cons, List.map_nil, Option.bind_eq_bind, Option.bind_some,
    natural?_naturalNode document sized.capacity,
    natural?_naturalNode document config.seed.toNat_lt, number?_numberNode,
    boolean?_booleanNode, schedule?_scheduleNode document sized.updatesFinal,
    fields?_sequence document sized.dims, UInt64.ofNat_toNat]
  rfl

theorem load_toYaml {config : Config} (sized : config.IsSized) :
    load (some config.toYaml.toUTF8) = .ok config.reread := by
  have read : ofYaml? config.toYaml = some config.reread := by
    have document := config.ofTokens?_toYaml
    obtain ⟨tokens, scanned, document⟩ := Option.bind_eq_some_iff.1 document
    rw [ofYaml?, scanned, Option.bind_eq_bind, Option.bind_some, document]
    exact ofDocument?_of_root ⟨_, []⟩ sized rfl
  have decoded : String.fromUTF8? config.toYaml.toUTF8 = some config.toYaml :=
    dif_pos config.toYaml.isValidUTF8
  rw [load, decoded, Option.bind_some, read]

theorem reread_same_iff {config : Config} (numbers : ∀ x ∈ config.numbers, x ≠ .nan) :
    config.reread.same config = true ↔ ∀ x ∈ config.numbers, ¬ IsRoundedAway x := by
  obtain ⟨capacity, alpha, beta, schedule, nextStates, seed, fields⟩ := config
  cases schedule with
  | none =>
    simp only [Config.numbers, betas, Option.toList_none, List.map_nil, List.forall_mem_cons,
      List.not_mem_nil, false_implies, implies_true, and_true] at numbers ⊢
    rw [← Yaml.reread_same_iff numbers.1, ← Yaml.reread_same_iff numbers.2]
    simp [same, reread]
  | some schedule =>
    simp only [Config.numbers, betas, Option.toList_some, List.map_cons, List.map_nil,
      List.forall_mem_cons, List.not_mem_nil, false_implies, implies_true, and_true] at numbers ⊢
    rw [← Yaml.reread_same_iff numbers.1, ← Yaml.reread_same_iff numbers.2.1,
      ← Yaml.reread_same_iff numbers.2.2]
    simp [same, reread, and_assoc]

theorem load_toYaml_same_iff {config : Config} (sized : config.IsSized)
    (numbers : ∀ x ∈ config.numbers, x ≠ .nan) :
    load (some config.toYaml.toUTF8) = .ok config.reread ∧
      (config.reread.same config = true ↔ ∀ x ∈ config.numbers, ¬ IsRoundedAway x) :=
  ⟨load_toYaml sized, reread_same_iff numbers⟩

/-- Greatest integers, extreme numbers, and names that could be read as something else. -/
def extreme : Config where
  capacity := 2 ^ 64 - 1
  alpha := .ofBits 0x00000001
  beta := .infinite true
  betaSchedule := some ⟨.ofBits 0x7f7fffff, 2 ^ 64 - 1⟩
  nextStates := false
  seed := 0xffffffffffffffff
  fields := [⟨"", 0⟩, ⟨"null", 1⟩, ⟨" 1e5 ", 2 ^ 64 - 1⟩, ⟨"a: \"b\"\n\x00", 3⟩, ⟨"é ü", 1⟩]

theorem load_toYaml_same_iff_extreme :
    extreme.IsSized ∧ (∀ x ∈ extreme.numbers, x ≠ .nan) ∧
      load (some extreme.toYaml.toUTF8) = .ok extreme.reread ∧
      extreme.reread.same extreme = true := by
  have sized : extreme.IsSized := ⟨by decide, by decide, by decide⟩
  have numbers : ∀ x ∈ extreme.numbers, x ≠ .nan := by decide
  obtain ⟨loaded, same⟩ := load_toYaml_same_iff sized numbers
  exact ⟨sized, numbers, loaded, same.2 (by decide +kernel)⟩

/-- Its shortest decimal, `7.038531e-26`, is read in double precision as the middle of this number
and the next one, which is the even one. -/
def betweenNumbers : Config := { default with alpha := .ofBits 0x15ae43fd }

theorem load_toYaml_other_alpha :
    betweenNumbers.IsSized ∧ (∀ x ∈ betweenNumbers.numbers, x.isFinite = true) ∧
      ∃ loaded, load (some betweenNumbers.toYaml.toUTF8) = .ok loaded ∧
        loaded.alpha.toBits = 0x15ae43fe ∧ loaded.same betweenNumbers = false := by
  refine ⟨⟨by decide, by decide, by decide⟩, by decide +kernel,
    { default with alpha := .ofBits 0x15ae43fe }, ?_, ?_, ?_⟩
  · decide +kernel
  · decide +kernel
  · decide +kernel

end Config

end ExperienceReplay
