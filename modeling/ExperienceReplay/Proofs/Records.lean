import ExperienceReplay.Records
import Mathlib.Data.List.Nodup

/-!
Laws of batches: what stands under a name after values were entered under distinct names, rows of
values that were put together from rows, and the names of the states that follow.
-/

namespace ExperienceReplay

namespace Records

theorem get?_foldl_insert_of_not_mem {entries : List (String × List Binary32)} {name : String}
    (records : Records) (h : name ∉ entries.map Prod.fst) :
    (entries.foldl (fun records entry => records.insert entry.1 entry.2) records).get? name =
      records.get? name := by
  induction entries generalizing records with
  | nil => rfl
  | cons entry rest ih =>
    obtain ⟨different, fresh⟩ := List.ne_and_not_mem_of_not_mem_cons h
    rw [List.foldl_cons, ih _ fresh, get?_insert, if_neg different]

theorem get?_ofList {entries : List (String × List Binary32)} {name : String}
    {values : List Binary32} (distinct : (entries.map Prod.fst).Nodup)
    (mem : (name, values) ∈ entries) : (ofList entries).get? name = some values := by
  unfold ofList
  generalize empty = records
  induction entries generalizing records with
  | nil => cases mem
  | cons entry rest ih =>
    obtain ⟨fresh, distinct⟩ := List.nodup_cons.1 distinct
    rcases List.mem_cons.1 mem with rfl | mem
    · rw [List.foldl_cons, get?_foldl_insert_of_not_mem _ fresh, get?_insert, if_pos rfl]
    · exact ih distinct mem _

theorem take_drop_flatten {α : Type} {rows : List (List α)} {dim k : Nat}
    (widths : ∀ row ∈ rows, row.length = dim) {row : List α} (h : rows[k]? = some row) :
    (rows.flatten.drop (k * dim)).take dim = row := by
  induction rows generalizing k with
  | nil => simp at h
  | cons first rest ih =>
    have width := widths first List.mem_cons_self
    cases k with
    | zero =>
      obtain rfl : first = row := by simpa using h
      rw [Nat.zero_mul, List.drop_zero, List.flatten_cons, ← width, List.take_left]
    | succ k =>
      rw [List.flatten_cons, Nat.succ_mul, Nat.add_comm, List.drop_append, width]
      rw [List.drop_eq_nil_of_le (by omega), List.nil_append, Nat.add_sub_cancel_left]
      exact ih (fun r hr => widths r (List.mem_cons_of_mem _ hr)) (by simpa using h)

theorem length_flatten_of_widths {α : Type} {rows : List (List α)} {dim : Nat}
    (widths : ∀ row ∈ rows, row.length = dim) : rows.flatten.length = rows.length * dim := by
  rw [List.length_flatten, List.eq_replicate_of_mem (l := rows.map List.length) (a := dim)]
  · simp
  · simpa using widths

theorem row?_of_get?_flatten {records : Records} {name : String} {rows : List (List Binary32)}
    {dim : Nat} (positive : 0 < dim) (widths : ∀ row ∈ rows, row.length = dim)
    (h : records.get? name = some rows.flatten) (k : Nat) :
    records.row? name k dim = rows[k]? := by
  have total := length_flatten_of_widths widths
  simp only [row?, h, Option.bind_eq_bind, Option.bind_some, total]
  split
  next inside =>
    have : k < rows.length := Nat.lt_of_succ_le (Nat.le_of_mul_le_mul_right inside positive)
    rw [List.getElem?_eq_getElem this, take_drop_flatten widths (List.getElem?_eq_getElem this)]
  next outside =>
    refine (List.getElem?_eq_none (Nat.le_of_not_lt fun below => outside ?_)).symm
    exact Nat.mul_le_mul_right dim below

end Records

namespace Field

theorem toList_of_isStateName {name : String} (h : isStateName name = true) :
    name.toList = states.toList ++ name.toList.drop states.length := by
  rcases Bool.or_eq_true_iff.1 h with equal | below
  · obtain rfl : name = states := by simpa using equal
    decide
  · obtain ⟨rest, equal⟩ := List.isPrefixOf_iff_prefix.1 below
    rw [← equal]
    rfl

theorem nextStateName_injective {a b : String} (ha : isStateName a = true)
    (hb : isStateName b = true) (h : nextStateName a = nextStateName b) : a = b := by
  have tails := congrArg String.toList h
  simp only [nextStateName, String.toList_append, String.toList_ofList,
    List.append_cancel_left_eq] at tails
  rw [← String.toList_inj, toList_of_isStateName ha, toList_of_isStateName hb, tails]

theorem isDerivedName_nextStateName {name : String} (h : isStateName name = true) :
    isDerivedName (nextStateName name) = true := by
  rcases Bool.or_eq_true_iff.1 h with equal | below
  · obtain rfl : name = states := by simpa using equal
    decide
  · obtain ⟨rest, equal⟩ := List.isPrefixOf_iff_prefix.1 below
    unfold isDerivedName
    rw [Bool.or_eq_true_iff]
    right
    rw [List.isPrefixOf_iff_prefix]
    refine ⟨rest, ?_⟩
    rw [nextStateName, ← equal]
    simp only [String.toList_append, String.toList_ofList]
    rfl

end Field

end ExperienceReplay
