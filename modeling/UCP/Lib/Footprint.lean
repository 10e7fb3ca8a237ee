import Mathlib.Data.List.Nodup
import Mathlib.Data.Set.Finite.Basic
import Mathlib.Logic.Function.Basic

section Footprint

variable {α β : Type*} {base mem mem' : α → Option β} {keys keys' : List α}

/-- The memory is the base memory with these addresses, free in the base memory,
taken into use. -/
structure Footprint (base mem : α → Option β) (keys : List α) : Prop where
  outside : ∀ x, x ∉ keys → mem x = base x
  fresh : ∀ x ∈ keys, base x = none

namespace Footprint

theorem refl (base : α → Option β) : Footprint base base [] where
  outside _ _ := rfl
  fresh _ member := absurd member List.not_mem_nil

/-- With everything given back, the base memory is left. -/
theorem restored (footprint : Footprint base mem []) : mem = base :=
  funext fun x => footprint.outside x List.not_mem_nil

/-- What is free without end at the base stays so. -/
theorem endless (footprint : Footprint base mem keys) (free : {x | base x = none}.Infinite) :
    {x | mem x = none}.Infinite := by
  refine (free.sdiff (List.finite_toSet keys)).mono ?_
  rintro x ⟨isFree, outside⟩
  exact (footprint.outside x outside).trans isFree

/-- What a change of the memory has to respect: only owned addresses change, those
that come in were free, and those that go are freed. -/
theorem change (footprint : Footprint base mem keys) (same : ∀ x, x ∉ keys → x ∉ keys' → mem' x = mem x)
    (taken : ∀ x ∈ keys', x ∉ keys → mem x = none) (freed : ∀ x ∈ keys, x ∉ keys' → mem' x = none) :
    Footprint base mem' keys' where
  outside x out := by
    by_cases old : x ∈ keys
    · rw [freed x old out, footprint.fresh x old]
    · rw [same x old out, footprint.outside x old]
  fresh x member := by
    by_cases old : x ∈ keys
    · exact footprint.fresh x old
    · rw [← footprint.outside x old, taken x member old]

/-- Two structures side by side in memory can be taken in either order. -/
theorem swap [DecidableEq α] {mid : α → Option β} (first : Footprint base mid keys)
    (second : Footprint mid mem keys')
    (used : ∀ x ∈ keys, mid x ≠ none) :
    ∃ mid', Footprint base mid' keys' ∧ Footprint mid' mem keys ∧ (∀ x ∈ keys', mid' x = mem x) ∧
      ∀ x ∈ keys, mem x = mid x := by
  have apart : ∀ x ∈ keys, x ∉ keys' := fun x member other => used x member (second.fresh x other)
  refine ⟨fun x => if x ∈ keys then none else mem x, ⟨fun x out => ?_, fun x member => ?_⟩,
    ⟨fun x out => ?_, fun x member => ?_⟩, fun x member => ?_, fun x member => ?_⟩
  · by_cases inside : x ∈ keys
    · rw [if_pos inside, first.fresh x inside]
    · rw [if_neg inside, second.outside x out, first.outside x inside]
  · rw [← first.outside x fun inside => apart x inside member, second.fresh x member]
  · exact (if_neg out).symm
  · exact if_pos member
  · exact if_neg fun inside => apart x inside member
  · exact second.outside x (apart x member)

end Footprint

end Footprint

section Stores

variable {α β : Type*} {base mem : α → Option β} {objs left right : List (α × β)} {addr : α} {value : β}

/-- The memory is the base memory with these objects in it, at distinct addresses. -/
structure Stores (base mem : α → Option β) (objs : List (α × β)) : Prop where
  nodup : (objs.map Prod.fst).Nodup
  value : ∀ obj ∈ objs, mem obj.1 = some obj.2
  footprint : Footprint base mem (objs.map Prod.fst)

namespace Stores

theorem refl (base : α → Option β) : Stores base base [] where
  nodup := List.nodup_nil
  value _ member := absurd member List.not_mem_nil
  footprint := .refl base

theorem load (stores : Stores base mem (left ++ (addr, value) :: right)) : mem addr = some value :=
  stores.value (addr, value) (List.mem_append_right _ (List.mem_cons_self ..))

theorem not_mem (stores : Stores base mem (left ++ (addr, value) :: right)) :
    addr ∉ (left ++ right).map Prod.fst := by
  have nodup := stores.nodup
  rw [List.map_append, List.map_cons] at nodup
  rw [List.map_append]
  exact (List.nodup_cons.mp (List.nodup_middle.mp nodup)).1

theorem mem_middle {x obj : α × β} : x ∈ left ++ obj :: right ↔ x = obj ∨ x ∈ left ++ right := by
  rw [List.mem_append, List.mem_cons, List.mem_append, or_left_comm]

theorem key_middle {x : α} :
    x ∈ (left ++ (addr, value) :: right).map Prod.fst ↔ x = addr ∨ x ∈ (left ++ right).map Prod.fst := by
  rw [List.map_append, List.map_cons, List.mem_append, List.mem_cons, List.map_append, List.mem_append, or_left_comm]

theorem other_key (outside : addr ∉ (left ++ right).map Prod.fst) {obj : α × β} (member : obj ∈ left ++ right) :
    obj.1 ≠ addr := by
  rintro rfl
  exact outside (List.mem_map_of_mem member)

variable [DecidableEq α]

theorem update (stores : Stores base mem (left ++ (addr, value) :: right)) (value' : β) :
    Stores base (Function.update mem addr (some value')) (left ++ (addr, value') :: right) where
  nodup := by
    have nodup := stores.nodup
    rw [List.map_append, List.map_cons] at nodup ⊢
    exact nodup
  value := by
    intro obj member
    rcases mem_middle.mp member with rfl | other
    · exact Function.update_self ..
    · rw [Function.update_of_ne (other_key stores.not_mem other)]
      exact stores.value obj (mem_middle.mpr (Or.inr other))
  footprint := by
    refine stores.footprint.change (fun x out _ => ?_) (fun x inside out => ?_) (fun x inside out => ?_)
    · rw [key_middle, not_or] at out
      exact Function.update_of_ne out.1 ..
    · exact absurd (key_middle.mpr (key_middle.mp inside)) out
    · exact absurd (key_middle.mpr (key_middle.mp inside)) out

theorem insert (stores : Stores base mem (left ++ right)) (free : mem addr = none) (value : β) :
    Stores base (Function.update mem addr (some value)) (left ++ (addr, value) :: right) where
  nodup := by
    have outside : addr ∉ (left ++ right).map Prod.fst := by
      intro member
      obtain ⟨obj, inside, rfl⟩ := List.mem_map.mp member
      cases (stores.value obj inside).symm.trans free
    have nodup := stores.nodup
    rw [List.map_append] at nodup outside
    rw [List.map_append, List.map_cons]
    exact List.nodup_middle.mpr (List.nodup_cons.mpr ⟨outside, nodup⟩)
  value := by
    intro obj member
    rcases mem_middle.mp member with rfl | other
    · exact Function.update_self ..
    · have apart : obj.1 ≠ addr := by
        rintro rfl
        cases (stores.value obj other).symm.trans free
      rw [Function.update_of_ne apart]
      exact stores.value obj other
  footprint := by
    refine stores.footprint.change (fun x _ out => ?_) (fun x inside out => ?_) (fun x inside out => ?_)
    · rw [key_middle, not_or] at out
      exact Function.update_of_ne out.1 ..
    · obtain rfl := (key_middle.mp inside).resolve_right out
      exact free
    · exact absurd (key_middle.mpr (Or.inr inside)) out

theorem remove (stores : Stores base mem (left ++ (addr, value) :: right)) :
    Stores base (Function.update mem addr none) (left ++ right) where
  nodup := by
    have nodup := stores.nodup
    rw [List.map_append, List.map_cons] at nodup
    rw [List.map_append]
    exact (List.nodup_cons.mp (List.nodup_middle.mp nodup)).2
  value := by
    intro obj member
    rw [Function.update_of_ne (other_key stores.not_mem member)]
    exact stores.value obj (mem_middle.mpr (Or.inr member))
  footprint := by
    refine stores.footprint.change (fun x out _ => ?_) (fun x inside out => ?_) (fun x inside out => ?_)
    · rw [key_middle, not_or] at out
      exact Function.update_of_ne out.1 ..
    · exact absurd (key_middle.mpr (Or.inr inside)) out
    · obtain rfl := (key_middle.mp inside).resolve_right out
      exact Function.update_self ..

end Stores

end Stores
