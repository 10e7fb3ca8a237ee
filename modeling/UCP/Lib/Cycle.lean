import Mathlib.Data.List.Rotate

namespace List

variable {α : Type*}

/-- The first `k` elements of the endless repetition of a list. -/
def endless (l : List α) (k : Nat) : List α := (replicate k l).flatten.take k

theorem endless_nil (k : Nat) : ([] : List α).endless k = [] := by
  rw [endless, flatten_replicate_nil, take_nil]

theorem length_le_flatten_replicate {l : List α} (nonempty : l ≠ []) (k : Nat) :
    k ≤ (replicate k l).flatten.length := by
  rw [length_flatten, map_replicate, sum_replicate_nat]
  exact Nat.le_mul_of_pos_right _ (length_pos_iff.mpr nonempty)

/-- Repeating a list and taking its head away leaves its rotation, repeated,
and what is left of the last copy. -/
theorem flatten_replicate_cons (a : α) (l : List α) (k : Nat) :
    (replicate (k + 1) (a :: l)).flatten = a :: ((replicate k (l ++ [a])).flatten ++ l) := by
  induction k with
  | zero => simp
  | succ k ih =>
    rw [replicate_succ, flatten_cons, ih, replicate_succ, flatten_cons]
    simp

theorem endless_cons_succ (a : α) (l : List α) (k : Nat) :
    (a :: l).endless (k + 1) = a :: (l ++ [a]).endless k := by
  have long := length_le_flatten_replicate (show l ++ [a] ≠ [] by simp) k
  rw [endless, flatten_replicate_cons, take_succ_cons, take_append_of_le_length long, endless]

theorem take_endless {l : List α} {k m : Nat} (le : k ≤ m) : (l.endless m).take k = l.endless k := by
  induction k generalizing l m with
  | zero => simp [endless]
  | succ k ih =>
    obtain ⟨m, rfl⟩ := Nat.exists_eq_add_of_le' (Nat.zero_lt_of_lt le)
    cases l with
    | nil => rw [endless_nil, endless_nil, take_nil]
    | cons a l => rw [endless_cons_succ, endless_cons_succ, take_succ_cons, ih (Nat.le_of_succ_le_succ le)]

theorem take_append_endless (front l : List α) {k m : Nat} (le : k ≤ m) :
    (front ++ l.endless m).take k = (front ++ l.endless k).take k := by
  rw [take_append, take_append, take_endless ((Nat.sub_le ..).trans le), take_endless (Nat.sub_le ..)]

end List
