import UCP.LinkedListSteps
import UCP.Lib.Ring
import UCP.Lib.Run

namespace UCP

section Represents

variable {Addr Obj : Type}

/-- The list in memory holds these elements, in this order, with these objects. -/
structure Represents (list : LinkedList Addr Obj) (elems : List (Addr × Option Obj)) : Prop where
  ring : LinkRing list.heap.nextOf list.heap.prevOf list.anchor (elems.map (·.1))
  obj : ∀ elem ∈ elems, list.heap.objOf elem.1 = elem.2
  numMembers : list.numMembers = Int32.ofNat elems.length

/-- The element in front of a place in the list, which may be the anchor. -/
def LinkedList.before (list : LinkedList Addr Obj) (left : List (Addr × Option Obj)) : Addr :=
  (left.map (·.1)).getLastD list.anchor

/-- The element behind a place in the list, which may be the anchor. -/
def LinkedList.behind (list : LinkedList Addr Obj) (right : List (Addr × Option Obj)) : Addr :=
  (right.map (·.1)).headD list.anchor

variable {list : LinkedList Addr Obj} {left right elems : List (Addr × Option Obj)} {n : Addr} {obj : Option Obj}

theorem Represents.ring_at (rep : Represents list (left ++ right)) :
    LinkRing list.heap.nextOf list.heap.prevOf list.anchor (left.map (·.1) ++ right.map (·.1)) := by
  have ring := rep.ring
  rwa [List.map_append] at ring

theorem Represents.place (rep : Represents list (left ++ right)) (fresh : list.heap n = none) :
    ∃ atP atQ, Place list (list.before left) n (list.behind right) atP atQ := by
  obtain ⟨atP, oldP, next⟩ := Option.bind_eq_some_iff.mp rep.ring_at.next_eq
  obtain ⟨atQ, oldQ, prev⟩ := Option.bind_eq_some_iff.mp rep.ring_at.prev_eq
  refine ⟨atP, atQ, oldP, oldQ, next, prev, ?_, ?_⟩
  · rintro rfl
    cases oldP.symm.trans fresh
  · rintro rfl
    cases oldQ.symm.trans fresh

theorem Represents.apart (rep : Represents list (left ++ right)) (nonempty : left ++ right ≠ []) :
    list.before left ≠ list.behind right := by
  refine rep.ring_at.apart ?_
  rw [← List.map_append]
  exact fun empty => nonempty (List.map_eq_nil_iff.mp empty)

theorem Represents.linked {elem : Addr × Option Obj} (rep : Represents list (left ++ elem :: right)) :
    ∃ atP atN atQ, Linked list (list.before left) elem.1 (list.behind right) atP atN atQ := by
  have front : LinkRing list.heap.nextOf list.heap.prevOf list.anchor (left.map (·.1) ++ elem.1 :: right.map (·.1)) :=
    rep.ring_at
  have back : LinkRing list.heap.nextOf list.heap.prevOf list.anchor
      ((left.map (·.1) ++ [elem.1]) ++ right.map (·.1)) := by
    rwa [List.append_assoc, List.singleton_append]
  have onward := back.next_eq
  have backward := front.prev_eq
  rw [List.getLastD_concat] at onward
  rw [List.headD_cons] at backward
  obtain ⟨atP, oldP, _⟩ := Option.bind_eq_some_iff.mp front.next_eq
  obtain ⟨atN, oldN, next⟩ := Option.bind_eq_some_iff.mp onward
  obtain ⟨atQ, oldQ, _⟩ := Option.bind_eq_some_iff.mp back.prev_eq
  obtain ⟨atN', oldN', prev⟩ := Option.bind_eq_some_iff.mp backward
  obtain rfl : atN = atN' := Option.some.inj (oldN.symm.trans oldN')
  have newP := front.apart (List.append_ne_nil_of_right_ne_nil _ (List.cons_ne_nil _ _))
  have newQ := back.apart (List.append_ne_nil_of_left_ne_nil (List.concat_ne_nil _ _) _)
  rw [List.getLastD_concat] at newQ
  exact ⟨atP, atN, atQ, oldP, oldN, oldQ, next, prev, newP, newQ.symm⟩

theorem Represents.allocated (rep : Represents list elems) {x : Addr}
    (member : x ∈ list.anchor :: elems.map (·.1)) : ∃ elem, list.heap x = some elem := by
  obtain ⟨_, next⟩ := rep.ring.exists_next member
  obtain ⟨elem, here, _⟩ := Option.bind_eq_some_iff.mp next
  exact ⟨elem, here⟩

theorem Represents.fresh (rep : Represents list elems) (fresh : list.heap n = none) :
    n ∉ list.anchor :: elems.map (·.1) := by
  intro member
  obtain ⟨elem, here⟩ := rep.allocated member
  cases here.symm.trans fresh

variable [DecidableEq Addr]

/-- Linking an element in inserts it into the sequence. -/
theorem Represents.inserted (rep : Represents list (left ++ right)) (fresh : list.heap n = none)
    (obj : Option Obj) :
    Represents (list.inserted (list.before left) n (list.behind right) obj) (left ++ (n, obj) :: right) where
  ring := by
    obtain ⟨atP, atQ, place⟩ := rep.place fresh
    have outside := rep.fresh fresh
    rw [List.map_append] at outside ⊢
    exact rep.ring_at.insert outside (Heap.nextOf_linkIn_link place.oldP place.newP) Heap.nextOf_linkIn_new
      (fun x new other => Heap.nextOf_linkIn_of_ne new other) (Heap.prevOf_linkIn_link place.oldQ place.newQ)
      Heap.prevOf_linkIn_new (fun x new other => Heap.prevOf_linkIn_of_ne new other)
  obj := by
    intro elem member
    have cases : elem = (n, obj) ∨ elem ∈ left ++ right := by
      simpa only [List.mem_append, List.mem_cons, or_left_comm] using member
    rcases cases with rfl | old
    · exact Heap.objOf_linkIn_new
    · have other : elem.1 ≠ n := by
        rintro rfl
        exact rep.fresh fresh (List.mem_cons_of_mem _ (List.mem_map_of_mem old))
      exact (Heap.objOf_linkIn_of_ne other).trans (rep.obj elem old)
  numMembers := by
    have count := rep.numMembers
    rw [List.length_append] at count ⊢
    rw [List.length_cons, ← Nat.add_assoc, Int32.ofNat_add, ← count]
    rfl

/-- Unlinking an element removes it from the sequence. -/
theorem Represents.removed {elem : Addr × Option Obj} (rep : Represents list (left ++ elem :: right)) :
    Represents (list.removed (list.before left) elem.1 (list.behind right)) (left ++ right) where
  ring := by
    obtain ⟨atP, atN, atQ, linked⟩ := rep.linked
    rw [List.map_append]
    exact rep.ring_at.remove (Heap.nextOf_linkOut_link linked.oldP linked.newP)
      (fun x new other => Heap.nextOf_linkOut_of_ne new other) (Heap.prevOf_linkOut_link linked.oldQ linked.newQ)
      (fun x new other => Heap.prevOf_linkOut_of_ne new other)
  obj := by
    intro other member
    have nodup := (List.nodup_cons.mp rep.ring.nodup).2
    rw [List.map_append, List.map_cons] at nodup
    have new : other.1 ≠ elem.1 := by
      intro same
      have outside := (List.nodup_cons.mp (List.nodup_middle.mp nodup)).1
      rw [← List.map_append, ← same] at outside
      exact outside (List.mem_map_of_mem member)
    refine (Heap.objOf_linkOut_of_ne new).trans (rep.obj other ?_)
    exact List.mem_append.mpr ((List.mem_append.mp member).imp_right (List.mem_cons_of_mem _))
  numMembers := by
    have count := rep.numMembers
    rw [List.length_append, List.length_cons, ← Nat.add_assoc, Int32.ofNat_add] at count
    rw [LinkedList.removed, count, List.length_append]
    exact Int32.add_sub_cancel ..

end Represents

section Readers

variable {Addr Obj : Type} {list : LinkedList Addr Obj} {left right elems : List (Addr × Option Obj)}
  {elem : Addr × Option Obj}

theorem Represents.atAnchor (rep : Represents list elems) : ∃ anchor, list.heap list.anchor = some anchor ∧
    anchor.next = some (list.behind elems) ∧ anchor.prev = some (list.before elems) := by
  obtain ⟨anchor, here, next⟩ := Option.bind_eq_some_iff.mp rep.ring.forth.first
  obtain ⟨anchor', here', prev⟩ := Option.bind_eq_some_iff.mp rep.ring.back.first
  obtain rfl : anchor = anchor' := Option.some.inj (here.symm.trans here')
  rw [LinkRing.headD_reverse] at prev
  exact ⟨anchor, here, next, prev⟩

theorem Represents.atElem (rep : Represents list (left ++ elem :: right)) :
    ∃ atElem, list.heap elem.1 = some atElem ∧
    atElem.obj = elem.2 ∧ atElem.next = some (list.behind right) ∧ atElem.prev = some (list.before left) := by
  obtain ⟨_, atElem, _, linked⟩ := rep.linked
  have obj := rep.obj elem (List.mem_append_right _ (List.mem_cons_self ..))
  rw [Heap.objOf, linked.oldN] at obj
  exact ⟨atElem, linked.oldN, obj, linked.next, linked.prev⟩

theorem Represents.anchor_not_mem (rep : Represents list elems) {x : Addr} (member : x ∈ elems.map (·.1)) :
    x ≠ list.anchor := by
  rintro rfl
  exact (List.nodup_cons.mp rep.ring.nodup).1 member

theorem LinkedList.before_concat (list : LinkedList Addr Obj) (left : List (Addr × Option Obj))
    (prev : Addr × Option Obj) : list.before (left ++ [prev]) = prev.1 := by
  rw [before, List.map_append, List.map_singleton, List.getLastD_concat]

variable [DecidableEq Addr]

/-- A link to the anchor is how the last element says that nothing is behind it. -/
theorem LinkedList.behind_eq (outside : ∀ x ∈ right.map (·.1), x ≠ list.anchor) :
    (if some (list.behind right) = some list.anchor then none else some (list.behind right)) =
      right.head?.map (·.1) := by
  cases right with
  | nil => exact if_pos rfl
  | cons next right =>
    have other : next.1 ≠ list.anchor := outside next.1 (List.mem_cons_self ..)
    exact if_neg fun same => other (Option.some.inj same)

theorem LinkedList.before_eq (outside : ∀ x ∈ left.map (·.1), x ≠ list.anchor) :
    (if some (list.before left) = some list.anchor then none else some (list.before left)) =
      left.getLast?.map (·.1) := by
  rcases List.eq_nil_or_concat left with rfl | ⟨left, prev, rfl⟩
  · exact if_pos rfl
  · have other : prev.1 ≠ list.anchor := outside prev.1 (by simp)
    rw [List.concat_eq_append, before_concat, List.getLast?_concat]
    exact if_neg fun same => other (Option.some.inj same)

theorem Represents.empty (rep : Represents list elems) : linkedListEmpty list = .ok elems.isEmpty := by
  obtain ⟨anchor, here, next, prev⟩ := rep.atAnchor
  rw [linkedListEmpty, Heap.load_some here, Except.ok_bind, next, prev]
  cases elems with
  | nil =>
    have both : (some list.anchor = some list.anchor && some list.anchor = some list.anchor) = true := by simp
    exact congrArg Except.ok both
  | cons elem elems =>
    have other : elem.1 ≠ list.anchor := rep.anchor_not_mem (List.mem_cons_self ..)
    have behind : list.behind (elem :: elems) = elem.1 := rfl
    rw [behind, decide_eq_false (fun same => other (Option.some.inj same)), Bool.false_and]
    rfl

theorem Represents.first (rep : Represents list elems) : linkedListFirst list = .ok (elems.head?.map (·.1)) := by
  obtain ⟨anchor, here, next, _⟩ := rep.atAnchor
  rw [linkedListFirst, rep.empty, Except.ok_bind]
  cases elems with
  | nil => rfl
  | cons elem elems =>
    rw [List.isEmpty_cons, if_neg Bool.false_ne_true, Heap.load_some here, Except.ok_bind, next]
    rfl

theorem Represents.last (rep : Represents list elems) : linkedListLast list = .ok (elems.getLast?.map (·.1)) := by
  obtain ⟨anchor, here, _, prev⟩ := rep.atAnchor
  rw [linkedListLast, rep.empty, Except.ok_bind]
  rcases List.eq_nil_or_concat elems with rfl | ⟨elems, elem, rfl⟩
  · rfl
  · have nonempty : (elems ++ [elem]).isEmpty = false := List.isEmpty_eq_false_iff.mpr (List.concat_ne_nil _ _)
    rw [List.concat_eq_append] at prev ⊢
    rw [nonempty, if_neg Bool.false_ne_true, Heap.load_some here, Except.ok_bind, prev, LinkedList.before_concat,
      List.getLast?_concat]
    rfl

theorem Represents.next (rep : Represents list (left ++ elem :: right)) :
    linkedListNext list (some elem.1) = .ok (right.head?.map (·.1)) := by
  obtain ⟨atElem, here, _, next, _⟩ := rep.atElem
  rw [linkedListNext, Heap.load_some here, Except.ok_bind, next]
  refine congrArg Except.ok (LinkedList.behind_eq fun x member => rep.anchor_not_mem ?_)
  rw [List.map_append, List.map_cons]
  exact List.mem_append_right _ (List.mem_cons_of_mem _ member)

theorem Represents.prev (rep : Represents list (left ++ elem :: right)) :
    linkedListPrev list (some elem.1) = .ok (left.getLast?.map (·.1)) := by
  obtain ⟨atElem, here, _, _, prev⟩ := rep.atElem
  rw [linkedListPrev, Heap.load_some here, Except.ok_bind, prev]
  refine congrArg Except.ok (LinkedList.before_eq fun x member => rep.anchor_not_mem ?_)
  rw [List.map_append]
  exact List.mem_append_left _ member

end Readers

section Updates

variable {Addr Obj : Type} [DecidableEq Addr] {list : LinkedList Addr Obj}
  {left right elems : List (Addr × Option Obj)}
  {elem : Addr × Option Obj} {n : Addr}

theorem Represents.append (rep : Represents list elems) (fresh : list.heap n = none) (obj : Option Obj)
    (junk : LinkedListElem Addr Obj) : ∃ list', linkedListAppend list obj (some (n, junk)) = .ok (true, list') ∧
      list'.anchor = list.anchor ∧ Represents list' (elems ++ [(n, obj)]) := by
  have rep : Represents list (elems ++ []) := by rwa [List.append_nil]
  obtain ⟨_, _, place⟩ := rep.place fresh
  exact ⟨_, place.append obj junk, rfl, rep.inserted fresh obj⟩

theorem Represents.prepend (rep : Represents list elems) (fresh : list.heap n = none) (obj : Option Obj)
    (junk : LinkedListElem Addr Obj) : ∃ list', linkedListPrepend list obj (some (n, junk)) = .ok (true, list') ∧
      list'.anchor = list.anchor ∧ Represents list' ((n, obj) :: elems) := by
  have rep : Represents list ([] ++ elems) := rep
  obtain ⟨_, _, place⟩ := rep.place fresh
  exact ⟨_, place.prepend obj junk, rfl, rep.inserted fresh obj⟩

theorem Represents.insertAfter (rep : Represents list (left ++ elem :: right)) (fresh : list.heap n = none)
    (obj : Option Obj) (junk : LinkedListElem Addr Obj) :
    ∃ list', linkedListInsertAfter list obj (some elem.1) (some (n, junk)) = .ok (true, list') ∧
      list'.anchor = list.anchor ∧ Represents list' (left ++ elem :: (n, obj) :: right) := by
  have rep : Represents list ((left ++ [elem]) ++ right) := by
    rwa [List.append_assoc, List.singleton_append]
  obtain ⟨_, _, place⟩ := rep.place fresh
  have apart := rep.apart (List.append_ne_nil_of_left_ne_nil (List.concat_ne_nil _ _) _)
  have inserted := rep.inserted fresh obj
  rw [LinkedList.before_concat] at place apart inserted
  rw [List.append_assoc, List.singleton_append] at inserted
  exact ⟨_, place.insertAfter apart obj junk, rfl, inserted⟩

theorem Represents.insertBefore (rep : Represents list (left ++ elem :: right)) (fresh : list.heap n = none)
    (obj : Option Obj) (junk : LinkedListElem Addr Obj) :
    ∃ list', linkedListInsertBefore list obj (some elem.1) (some (n, junk)) = .ok (true, list') ∧
      list'.anchor = list.anchor ∧ Represents list' (left ++ (n, obj) :: elem :: right) := by
  obtain ⟨_, _, place⟩ := rep.place fresh
  have apart := rep.apart (List.append_ne_nil_of_right_ne_nil _ (List.cons_ne_nil _ _))
  exact ⟨_, place.insertBefore apart obj junk, rfl, rep.inserted fresh obj⟩

theorem Represents.unlink (rep : Represents list (left ++ elem :: right)) :
    ∃ list', linkedListUnlink list (some elem.1) = .ok list' ∧ list'.anchor = list.anchor ∧
      Represents list' (left ++ right) := by
  obtain ⟨_, _, _, linked⟩ := rep.linked
  have nonempty : (left ++ elem :: right).isEmpty = false :=
    List.isEmpty_eq_false_iff.mpr (List.append_ne_nil_of_right_ne_nil _ (List.cons_ne_nil _ _))
  exact ⟨_, linked.unlink (nonempty ▸ rep.empty), rfl, rep.removed⟩

end Updates

section Loops

variable {Addr Obj : Type} [DecidableEq Addr] {list : LinkedList Addr Obj} {elems : List (Addr × Option Obj)}

/-- Each round of the loop takes the first element that is left, having read the
link behind it before its memory is freed. -/
theorem Represents.unlinkAllLoop {fuel : Nat} (rep : Represents list elems) (enough : elems.length ≤ fuel) :
    ∃ list', linkedListUnlinkAllLoop fuel list (elems.head?.map (·.1)) = .ok list' ∧
      list'.anchor = list.anchor ∧ Represents list' [] := by
  induction elems generalizing list fuel with
  | nil =>
    refine ⟨list, ?_, rfl, rep⟩
    cases fuel <;> rfl
  | cons elem elems ih =>
    obtain ⟨fuel, rfl⟩ : ∃ rest, fuel = rest + 1 := ⟨fuel - 1, by rw [List.length_cons] at enough; omega⟩
    have rep : Represents list ([] ++ elem :: elems) := rep
    obtain ⟨list', unlinked, sameAnchor, rep'⟩ := rep.unlink
    obtain ⟨last, rest, restAnchor, empty⟩ := ih rep' (Nat.le_of_succ_le_succ enough)
    refine ⟨last, ?_, restAnchor.trans sameAnchor, empty⟩
    rw [List.head?_cons, Option.map_some, linkedListUnlinkAllLoop, rep.next, Except.ok_bind, unlinked, Except.ok_bind]
    exact rest

theorem Represents.unlinkAll {fuel : Nat} (rep : Represents list elems) (enough : elems.length ≤ fuel) :
    ∃ list', linkedListUnlinkAll fuel list = .ok list' ∧ list'.anchor = list.anchor ∧ Represents list' [] := by
  rw [linkedListUnlinkAll, rep.first, Except.ok_bind]
  exact rep.unlinkAllLoop enough

variable [DecidableEq Obj]

theorem Represents.findLoop {left right : List (Addr × Option Obj)} {fuel : Nat}
    (rep : Represents list (left ++ right)) (enough : right.length ≤ fuel) (obj : Option Obj) :
    linkedListFindLoop list obj fuel (right.head?.map (·.1)) = .ok ((right.find? (·.2 = obj)).map (·.1)) := by
  induction right generalizing left fuel with
  | nil => cases fuel <;> rfl
  | cons elem right ih =>
    obtain ⟨fuel, rfl⟩ : ∃ rest, fuel = rest + 1 := ⟨fuel - 1, by rw [List.length_cons] at enough; omega⟩
    obtain ⟨atElem, here, sameObj, _⟩ := rep.atElem
    rw [List.head?_cons, Option.map_some, linkedListFindLoop, Heap.load_some here, Except.ok_bind, sameObj]
    by_cases found : elem.2 = obj
    · rw [if_pos found, List.find?_cons, decide_eq_true found]
      rfl
    · rw [if_neg found, rep.next, Except.ok_bind, List.find?_cons, decide_eq_false found]
      have rest : Represents list ((left ++ [elem]) ++ right) := by
        rwa [List.append_assoc, List.singleton_append]
      exact ih rest (Nat.le_of_succ_le_succ enough)

theorem Represents.find {fuel : Nat} (rep : Represents list elems) (enough : elems.length ≤ fuel)
    (obj : Option Obj) :
    linkedListFind fuel list obj = .ok ((elems.find? (·.2 = obj)).map (·.1)) := by
  rw [linkedListFind, rep.empty, Except.ok_bind]
  cases elems with
  | nil => rfl
  | cons elem elems =>
    rw [List.isEmpty_cons, if_neg Bool.false_ne_true, rep.first, Except.ok_bind]
    have rep : Represents list ([] ++ elem :: elems) := rep
    exact rep.findLoop enough obj

end Loops

end UCP
