import Mathlib.Algebra.GroupWithZero.Nat
import Mathlib.Data.List.Chain
import Mathlib.Data.List.Flatten

section FlatMap

variable {α β : Type*} {f : α → List β} {p : α → Bool}

theorem List.length_flatMap_filter_le (l : List α) : ((l.filter p).flatMap f).length ≤ (l.flatMap f).length :=
  (List.filter_sublist.flatMap f).length_le

/-- Leaving out some entries changes nothing exactly when they stand for nothing. -/
theorem List.flatMap_filter_iff (l : List α) :
    (l.filter p).flatMap f = l.flatMap f ↔ ∀ x ∈ l, p x = false → f x = [] := by
  induction l with
  | nil => simp
  | cons x l ih =>
    rw [List.forall_mem_cons, ← ih]
    cases kept : p x with
    | true =>
      rw [List.filter_cons_of_pos kept, List.flatMap_cons, List.flatMap_cons, List.append_cancel_left_eq]
      exact ⟨fun same => ⟨fun absurdity => Bool.noConfusion absurdity, same⟩, fun both => both.2⟩
    | false =>
      rw [List.filter_cons_of_neg (by simp [kept]), List.flatMap_cons]
      constructor
      · intro same
        have lengths := congrArg List.length same
        have shorter := List.length_flatMap_filter_le (f := f) (p := p) l
        rw [List.length_append] at lengths
        have nothing : f x = [] := List.length_eq_zero_iff.mp (by omega)
        rw [nothing, List.nil_append] at same
        exact ⟨fun _ => nothing, same⟩
      · rintro ⟨nothing, same⟩
        rw [nothing rfl, List.nil_append, same]

end FlatMap

section Modulus

theorem List.sum_map_mod_le (m : Nat) (ns : List Nat) : (ns.map (· % m)).sum ≤ ns.sum := by
  induction ns with
  | nil => exact Nat.le_refl _
  | cons n ns ih =>
    rw [List.map_cons, List.sum_cons, List.sum_cons]
    exact Nat.add_le_add (Nat.mod_le n m) ih

/-- Numbers that are reduced add up to the same sum exactly when none of them
is changed. -/
theorem List.sum_map_mod_eq_iff (m : Nat) (ns : List Nat) :
    (ns.map (· % m)).sum = ns.sum ↔ ∀ n ∈ ns, n % m = n := by
  induction ns with
  | nil => simp
  | cons n ns ih =>
    have below := List.sum_map_mod_le m ns
    have first := Nat.mod_le n m
    rw [List.map_cons, List.sum_cons, List.sum_cons, List.forall_mem_cons, ← ih]
    omega

end Modulus

theorem List.perm_cons_eraseP {α : Type*} {p : α → Bool} {l : List α} {a : α} (found : l.find? p = some a) :
    l.Perm (a :: l.eraseP p) := by
  induction l with
  | nil => cases found
  | cons b l ih =>
    by_cases here : p b
    · rw [List.find?_cons_of_pos here] at found
      cases found
      rw [List.eraseP_cons_of_pos here]
    · rw [List.find?_cons_of_neg here] at found
      rw [List.eraseP_cons_of_neg here]
      exact ((ih found).cons b).trans (.swap a b _)

/-- The only marked entry of a list splits it in one way. -/
theorem List.split_unique {α : Type*} (marked : α → Prop) {before after before' after' : List α} {a b : α}
    (same : before ++ a :: after = before' ++ b :: after') (first : ∀ x ∈ before, ¬marked x)
    (last : ∀ x ∈ after, ¬marked x) (isMarked : marked b) : before' = before ∧ b = a := by
  rcases List.append_eq_append_iff.mp same with ⟨front, split, rest⟩ | ⟨front, split, rest⟩
  · cases front with
    | nil => exact ⟨split.trans (List.append_nil _), (List.cons.inj rest).1.symm⟩
    | cons x front =>
      obtain ⟨_, tail⟩ := List.cons.inj rest
      exact absurd isMarked (last b (tail ▸ List.mem_append_right _ (List.mem_cons_self ..)))
  · cases front with
    | nil => exact ⟨(List.append_nil _).symm.trans split.symm, (List.cons.inj rest).1⟩
    | cons x front =>
      obtain ⟨rfl, _⟩ := List.cons.inj rest
      exact absurd isMarked (first b (split ▸ List.mem_append_right _ (List.mem_cons_self ..)))

namespace List.IsChain

variable {α : Type*} {R : α → α → Prop} {before after : List α} {a b c : α}

theorem replace (chain : (before ++ a :: after).IsChain R) (left : ∀ x ∈ before.getLast?, R x a → R x b)
    (right : ∀ y ∈ after.head?, R a y → R b y) : (before ++ b :: after).IsChain R := by
  obtain ⟨front, rest, junction⟩ := isChain_append.mp chain
  obtain ⟨next, back⟩ := List.isChain_cons.mp rest
  refine isChain_append.mpr ⟨front, List.isChain_cons.mpr ⟨fun y head => right y head (next y head), back⟩, ?_⟩
  intro x last y head
  cases head
  exact left x last (junction x last a rfl)

/-- Two neighbours become one that fits where they were. -/
theorem join (chain : (before ++ a :: b :: after).IsChain R) (left : ∀ x ∈ before.getLast?, R x a → R x c)
    (right : ∀ y ∈ after.head?, R b y → R c y) : (before ++ c :: after).IsChain R := by
  obtain ⟨front, rest, junction⟩ := isChain_append.mp chain
  obtain ⟨next, back⟩ := List.isChain_cons.mp rest.tail
  refine isChain_append.mpr ⟨front, List.isChain_cons.mpr ⟨fun y head => right y head (next y head), back⟩, ?_⟩
  intro x last y head
  cases head
  exact left x last (junction x last a rfl)

theorem insert (chain : (before ++ a :: after).IsChain R) (here : R a b) (right : ∀ y ∈ after.head?, R b y) :
    (before ++ a :: b :: after).IsChain R := by
  obtain ⟨front, rest, junction⟩ := isChain_append.mp chain
  have back := (List.isChain_cons.mp rest).2
  refine isChain_append.mpr ⟨front, ?_, fun x last y head => ?_⟩
  · exact isChain_cons_cons.mpr ⟨here, List.isChain_cons.mpr ⟨right, back⟩⟩
  · cases head
    exact junction x last a rfl

end List.IsChain
