import ExperienceReplay.Proofs.Records

/-!
Names that stand for states, and the names of the states that follow them, said without looking at
characters: a name is a root, or a root, a slash and a leaf. A leaf may be any text, an empty one
and one with slashes included.
-/

namespace ExperienceReplay.Field

def Under (root name : String) : Prop := name = root ∨ ∃ leaf, name = root ++ "/" ++ leaf

inductive FollowedBy : String → String → Prop
  | root : FollowedBy "states" "next_states"
  | leaf (leaf : String) : FollowedBy ("states" ++ "/" ++ leaf) ("next_states" ++ "/" ++ leaf)

theorem isPrefixOf_toList_iff {start name : String} :
    start.toList.isPrefixOf name.toList = true ↔ ∃ leaf, name = start ++ leaf := by
  rw [List.isPrefixOf_iff_prefix]
  constructor
  · rintro ⟨rest, whole⟩
    refine ⟨String.ofList rest, String.toList_inj.1 ?_⟩
    rw [String.toList_append, String.toList_ofList, whole]
  · rintro ⟨leaf, rfl⟩
    exact ⟨leaf.toList, String.toList_append.symm⟩

theorem isStateName_iff_under {name : String} : isStateName name = true ↔ Under "states" name := by
  unfold isStateName Under
  rw [Bool.or_eq_true_iff, isPrefixOf_toList_iff, beq_iff_eq]
  rfl

theorem isDerivedName_iff_under {name : String} :
    isDerivedName name = true ↔ Under "next_states" name := by
  unfold isDerivedName Under
  rw [Bool.or_eq_true_iff, isPrefixOf_toList_iff, beq_iff_eq]
  rfl

theorem nextStateName_leaf (leaf : String) :
    nextStateName ("states" ++ "/" ++ leaf) = "next_states" ++ "/" ++ leaf := by
  rw [← String.toList_inj]
  simp only [nextStateName, String.toList_append, String.toList_ofList, List.append_assoc]
  rfl

theorem followedBy_iff {name next : String} :
    FollowedBy name next ↔ isStateName name = true ∧ next = nextStateName name := by
  rw [isStateName_iff_under]
  constructor
  · rintro (_ | leaf)
    · exact ⟨Or.inl rfl, by decide⟩
    · exact ⟨Or.inr ⟨leaf, rfl⟩, (nextStateName_leaf leaf).symm⟩
  · rintro ⟨rfl | ⟨leaf, rfl⟩, rfl⟩
    · exact .root
    · rw [nextStateName_leaf]
      exact .leaf leaf

theorem FollowedBy.under_states {name next : String} (follows : FollowedBy name next) :
    Under "states" name :=
  isStateName_iff_under.1 (followedBy_iff.1 follows).1

theorem FollowedBy.unique {name a b : String} (followsA : FollowedBy name a)
    (followsB : FollowedBy name b) : a = b :=
  (followedBy_iff.1 followsA).2.trans (followedBy_iff.1 followsB).2.symm

theorem Under.exists_followedBy {name : String} (state : Under "states" name) :
    ∃ next, FollowedBy name next :=
  ⟨_, followedBy_iff.2 ⟨isStateName_iff_under.2 state, rfl⟩⟩

end ExperienceReplay.Field
