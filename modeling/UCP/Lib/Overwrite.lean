import Mathlib.Data.Set.Basic
import Mathlib.Order.Interval.Set.Basic
import Mathlib.Data.List.Basic

namespace List

variable {α : Type*} {pad : α} {f c bs : List α} {off n : Nat}

/-- The contents after `bs` is written at position `off`. Writing past the end
leaves a hole filled with `pad`; writing nothing changes nothing. -/
def overwrite (pad : α) (f : List α) (off : Nat) (bs : List α) : List α :=
  if bs.isEmpty then f
  else f.take off ++ replicate (off - f.length) pad ++ bs ++ f.drop (off + bs.length)

theorem overwrite_nil (pad : α) (f : List α) (off : Nat) : overwrite pad f off [] = f := rfl

theorem overwrite_of_le (within : off + bs.length ≤ f.length) :
    overwrite pad f off bs = f.take off ++ bs ++ f.drop (off + bs.length) := by
  cases bs with
  | nil => simp [overwrite]
  | cons b bs =>
    have inside : off - f.length = 0 := by omega
    simp [overwrite, inside]

theorem overwrite_end (pad : α) (f bs : List α) : overwrite pad f f.length bs = f ++ bs := by
  cases bs with
  | nil => simp [overwrite]
  | cons b bs => simp [overwrite]

theorem length_overwrite (within : off + bs.length ≤ f.length) :
    (overwrite pad f off bs).length = f.length := by
  rw [overwrite_of_le within]
  simp only [length_append, length_take, length_drop]
  omega

theorem getElem?_overwrite (within : off + bs.length ≤ f.length) (i : Nat) :
    (overwrite pad f off bs)[i]? = if off ≤ i ∧ i < off + bs.length then bs[i - off]? else f[i]? := by
  have prefixLength : (f.take off).length = off := by rw [length_take]; omega
  rw [overwrite_of_le within, append_assoc, getElem?_append, prefixLength, getElem?_append]
  by_cases before : i < off
  · rw [if_pos before, if_neg (by omega), getElem?_take_of_lt before]
  by_cases inside : i - off < bs.length
  · rw [if_neg before, if_pos inside, if_pos (by omega)]
  · rw [if_neg before, if_neg inside, if_neg (by omega), getElem?_drop]
    congr 1
    omega

/-- `f` has been filled in from the reference contents `c` exactly on the
positions `s`, and still holds `pad` everywhere else. -/
structure FilledFrom (pad : α) (c : List α) (s : Set Nat) (f : List α) : Prop where
  length_eq : f.length = c.length
  filled : ∀ i ∈ s, f[i]? = (c)[i]?
  blank : ∀ i, i < c.length → i ∉ s → f[i]? = some pad

theorem FilledFrom.start (pad : α) (c : List α) : FilledFrom pad c ∅ (replicate c.length pad) where
  length_eq := length_replicate
  filled := by simp
  blank := by
    intro i within _
    rw [getElem?_replicate, if_pos within]

/-- Writing any piece of the reference at its own position fills in exactly the
positions of that piece, whatever had been written before. -/
theorem FilledFrom.overwrite {s : Set Nat} (old : FilledFrom pad c s f) (within : off + n ≤ c.length) :
    FilledFrom pad c (s ∪ Set.Ico off (off + n)) (overwrite pad f off ((c.drop off).take n)) := by
  have length : ((c.drop off).take n).length = n := by
    rw [length_take, length_drop]; omega
  have fits : off + ((c.drop off).take n).length ≤ f.length := by
    rw [length, old.length_eq]; exact within
  refine ⟨(length_overwrite fits).trans old.length_eq, ?_, ?_⟩
  · intro i member
    rw [getElem?_overwrite fits, length]
    split
    · rename_i inside
      rw [getElem?_take_of_lt (by omega), getElem?_drop]
      congr 1
      omega
    · rename_i outside
      exact old.filled i (member.resolve_right outside)
  · intro i bound outside
    have unwritten : ¬(off ≤ i ∧ i < off + n) := fun inside => outside (Or.inr inside)
    rw [getElem?_overwrite fits, length, if_neg unwritten]
    exact old.blank i bound (fun inside => outside (Or.inl inside))

theorem FilledFrom.eq_reference {s : Set Nat} (done : FilledFrom pad c s f)
    (everywhere : ∀ i, i < c.length → i ∈ s) : f = c := by
  apply ext_getElem?
  intro i
  by_cases bound : i < c.length
  · exact done.filled i (everywhere i bound)
  · have lengths := done.length_eq
    rw [getElem?_eq_none (by omega), getElem?_eq_none (by omega)]

/-- Positions that have not been filled in do not matter where the reference has
the padding itself. -/
theorem FilledFrom.eq_reference_iff {s : Set Nat} (done : FilledFrom pad c s f) :
    f = c ↔ ∀ i, i < c.length → i ∉ s → (c)[i]? = some pad := by
  constructor
  · rintro rfl i bound outside
    exact done.blank i bound outside
  · intro blank
    refine ext_getElem? fun i => ?_
    by_cases bound : i < c.length
    · by_cases inside : i ∈ s
      · exact done.filled i inside
      · rw [done.blank i bound inside, blank i bound inside]
    · have lengths := done.length_eq
      rw [getElem?_eq_none (by omega), getElem?_eq_none (by omega)]

theorem FilledFrom.slice_eq {s : Set Nat} (done : FilledFrom pad c s f)
    (covered : Set.Ico off (off + n) ⊆ s) : (f.drop off).take n = (c.drop off).take n := by
  apply ext_getElem?
  intro i
  rw [getElem?_take, getElem?_take]
  split
  · rename_i inside
    rw [getElem?_drop, getElem?_drop]
    exact done.filled _ (covered ⟨by omega, by omega⟩)
  · rfl

end List
