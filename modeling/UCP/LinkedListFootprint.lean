import UCP.Lib.Footprint
import UCP.LinkedListRefinement

namespace UCP

section Results

variable {Addr Obj : Type} {list : LinkedList Addr Obj} {left right elems : List (Addr × Option Obj)}
  {elem : Addr × Option Obj} {n : Addr}

theorem LinkedList.before_mem (list : LinkedList Addr Obj) (left : List (Addr × Option Obj)) :
    list.before left ∈ list.anchor :: left.map (·.1) := LinkPath.getLastD_mem ..

theorem LinkedList.behind_mem (list : LinkedList Addr Obj) (right : List (Addr × Option Obj)) :
    list.behind right ∈ list.anchor :: right.map (·.1) := by
  cases right with
  | nil => exact List.mem_cons_self ..
  | cons elem right => exact List.mem_cons_of_mem _ (List.mem_cons_self ..)

variable [DecidableEq Addr]

theorem Represents.append_eq (rep : Represents list elems) (fresh : list.heap n = none) (obj : Option Obj)
    (junk : LinkedListElem Addr Obj) :
    linkedListAppend list obj (some (n, junk)) = .ok (true, list.inserted (list.before elems) n list.anchor obj) := by
  have rep : Represents list (elems ++ []) := by rwa [List.append_nil]
  obtain ⟨_, _, place⟩ := rep.place fresh
  exact place.append obj junk

theorem Represents.insertBefore_eq (rep : Represents list (left ++ elem :: right)) (fresh : list.heap n = none)
    (obj : Option Obj) (junk : LinkedListElem Addr Obj) :
    linkedListInsertBefore list obj (some elem.1) (some (n, junk)) =
      .ok (true, list.inserted (list.before left) n elem.1 obj) := by
  obtain ⟨_, _, place⟩ := rep.place fresh
  have apart := rep.apart (List.append_ne_nil_of_right_ne_nil _ (List.cons_ne_nil _ _))
  exact place.insertBefore apart obj junk

theorem Represents.unlink_eq (rep : Represents list (left ++ elem :: right)) :
    linkedListUnlink list (some elem.1) = .ok (list.removed (list.before left) elem.1 (list.behind right)) := by
  obtain ⟨_, _, _, linked⟩ := rep.linked
  have nonempty : (left ++ elem :: right).isEmpty = false :=
    List.isEmpty_eq_false_iff.mpr (List.append_ne_nil_of_right_ne_nil _ (List.cons_ne_nil _ _))
  exact linked.unlink (nonempty ▸ rep.empty)

theorem Heap.linkIn_of_ne {heap : Heap Addr Obj} {p q x : Addr} {obj : Option Obj} (new : x ≠ n) (notP : x ≠ p)
    (notQ : x ≠ q) : heap.linkIn p n q obj x = heap x := by
  cases here : heap x <;> simp [linkIn, new, notP, notQ, here]

theorem Heap.linkOut_of_ne {heap : Heap Addr Obj} {p q x : Addr} (new : x ≠ n) (notP : x ≠ p) (notQ : x ≠ q) :
    heap.linkOut p n q x = heap x := by
  cases here : heap x <;> simp [linkOut, new, notP, notQ, here]

theorem Heap.linkOut_self (heap : Heap Addr Obj) (p n q : Addr) : heap.linkOut p n q n = none := if_pos rfl

end Results

/-- The list in memory holds these elements, and of the memory around it, which is
the base memory, it owns just its anchor and their addresses. -/
structure Owns {Addr Obj : Type} (base : Heap Addr Obj) (list : LinkedList Addr Obj)
    (elems : List (Addr × Option Obj)) : Prop where
  represents : Represents list elems
  footprint : Footprint base list.heap (list.anchor :: elems.map (·.1))

section Owns

variable {Addr Obj : Type} {base : Heap Addr Obj} {list : LinkedList Addr Obj}
  {left right elems : List (Addr × Option Obj)} {elem : Addr × Option Obj} {n : Addr}

theorem member_left {x : Addr} (anchor : Addr) (member : x ∈ anchor :: left.map (·.1)) :
    x ∈ anchor :: (left ++ right).map (·.1) := by
  rw [List.map_append]
  exact (List.mem_cons.mp member).elim (fun same => List.mem_cons.mpr (Or.inl same)) fun inside =>
    List.mem_cons_of_mem _ (List.mem_append_left _ inside)

theorem member_right {x : Addr} (anchor : Addr) (member : x ∈ anchor :: right.map (·.1)) :
    x ∈ anchor :: (left ++ right).map (·.1) := by
  rw [List.map_append]
  exact (List.mem_cons.mp member).elim (fun same => List.mem_cons.mpr (Or.inl same)) fun inside =>
    List.mem_cons_of_mem _ (List.mem_append_right _ inside)

theorem member_middle {x anchor : Addr} :
    x ∈ anchor :: (left ++ elem :: right).map (·.1) ↔ x = elem.1 ∨ x ∈ anchor :: (left ++ right).map (·.1) := by
  simp only [List.map_append, List.map_cons, List.mem_cons, List.mem_append]
  rw [or_left_comm (b := x = elem.1), or_left_comm (b := x = elem.1)]

variable [DecidableEq Addr]

/-- Linking in writes to the neighbours, which are owned already, and to the new element. -/
theorem Owns.inserted (owns : Owns base list (left ++ right)) (fresh : list.heap n = none) (obj : Option Obj) :
    Owns base (list.inserted (list.before left) n (list.behind right) obj) (left ++ (n, obj) :: right) where
  represents := owns.represents.inserted fresh obj
  footprint := by
    refine owns.footprint.change (fun x out out' => ?_) (fun x inside out => ?_) (fun x inside out => ?_)
    · refine Heap.linkIn_of_ne (fun same => out' (member_middle.mpr (Or.inl same))) ?_ ?_
      · rintro rfl
        exact out (member_left _ (list.before_mem left))
      · rintro rfl
        exact out (member_right _ (list.behind_mem right))
    · obtain rfl := (member_middle.mp inside).resolve_right out
      exact fresh
    · exact absurd (member_middle.mpr (Or.inr inside)) out

theorem Owns.removed (owns : Owns base list (left ++ elem :: right)) :
    Owns base (list.removed (list.before left) elem.1 (list.behind right)) (left ++ right) where
  represents := owns.represents.removed
  footprint := by
    refine owns.footprint.change (fun x out _ => ?_) (fun x inside out => ?_) (fun x inside out => ?_)
    · rw [member_middle, not_or] at out
      refine Heap.linkOut_of_ne out.1 ?_ ?_
      · rintro rfl
        exact out.2 (member_left _ (list.before_mem left))
      · rintro rfl
        exact out.2 (member_right _ (list.behind_mem right))
    · exact absurd (member_middle.mpr (Or.inr inside)) out
    · obtain rfl := (member_middle.mp inside).resolve_right out
      exact list.heap.linkOut_self ..

theorem Owns.append (owns : Owns base list elems) (fresh : list.heap n = none) (obj : Option Obj)
    (junk : LinkedListElem Addr Obj) : ∃ list', linkedListAppend list obj (some (n, junk)) = .ok (true, list') ∧
      list'.anchor = list.anchor ∧ Owns base list' (elems ++ [(n, obj)]) := by
  refine ⟨_, owns.represents.append_eq fresh obj junk, rfl, ?_⟩
  have owns : Owns base list (elems ++ []) := by rwa [List.append_nil]
  exact owns.inserted fresh obj

theorem Owns.insertBefore (owns : Owns base list (left ++ elem :: right)) (fresh : list.heap n = none)
    (obj : Option Obj) (junk : LinkedListElem Addr Obj) :
    ∃ list', linkedListInsertBefore list obj (some elem.1) (some (n, junk)) = .ok (true, list') ∧
      list'.anchor = list.anchor ∧ Owns base list' (left ++ (n, obj) :: elem :: right) :=
  ⟨_, owns.represents.insertBefore_eq fresh obj junk, rfl, owns.inserted fresh obj⟩

theorem Owns.unlink (owns : Owns base list (left ++ elem :: right)) :
    ∃ list', linkedListUnlink list (some elem.1) = .ok list' ∧ list'.anchor = list.anchor ∧
      Owns base list' (left ++ right) :=
  ⟨_, owns.represents.unlink_eq, rfl, owns.removed⟩

/-- As in `Represents.unlinkAllLoop`, each round takes the first element that is left. -/
theorem Owns.unlinkAllLoop {fuel : Nat} (owns : Owns base list elems) (enough : elems.length ≤ fuel) :
    ∃ list', linkedListUnlinkAllLoop fuel list (elems.head?.map (·.1)) = .ok list' ∧
      list'.anchor = list.anchor ∧ Owns base list' [] := by
  induction elems generalizing list fuel with
  | nil =>
    refine ⟨list, ?_, rfl, owns⟩
    cases fuel <;> rfl
  | cons elem elems ih =>
    obtain ⟨fuel, rfl⟩ : ∃ rest, fuel = rest + 1 := ⟨fuel - 1, by rw [List.length_cons] at enough; omega⟩
    have owns : Owns base list ([] ++ elem :: elems) := owns
    obtain ⟨list', unlinked, sameAnchor, owns'⟩ := owns.unlink
    obtain ⟨last, rest, restAnchor, empty⟩ := ih owns' (Nat.le_of_succ_le_succ enough)
    refine ⟨last, ?_, restAnchor.trans sameAnchor, empty⟩
    rw [List.head?_cons, Option.map_some, linkedListUnlinkAllLoop, owns.represents.next, Except.ok_bind, unlinked,
      Except.ok_bind]
    exact rest

theorem Owns.unlinkAll {fuel : Nat} (owns : Owns base list elems) (enough : elems.length ≤ fuel) :
    ∃ list', linkedListUnlinkAll fuel list = .ok list' ∧ list'.anchor = list.anchor ∧ Owns base list' [] := by
  rw [linkedListUnlinkAll, owns.represents.first, Except.ok_bind]
  exact owns.unlinkAllLoop enough

/-- The anchor is linked to itself, whatever its memory held. -/
theorem linkedListInit_eq (numMembers : Int32) (anchor : Addr) (base : Heap Addr Obj)
    (junk : LinkedListElem Addr Obj) :
    linkedListInit ⟨numMembers, anchor, base.set anchor (some junk)⟩ =
      .ok (true, ⟨numMembers, anchor, base.set anchor (some ⟨none, some anchor, some anchor⟩)⟩) := by
  simp [linkedListInit]

theorem Owns.linked {anchor : Addr} (free : base anchor = none) :
    Owns base ⟨0, anchor, base.set anchor (some ⟨none, some anchor, some anchor⟩)⟩ [] := by
  refine ⟨⟨⟨List.nodup_singleton _, ?_, ?_⟩, fun elem member => absurd member List.not_mem_nil, rfl⟩, ?_, ?_⟩
  · simp [LinkPath, Heap.nextOf]
  · simp [LinkPath, Heap.prevOf]
  · intro x outside
    exact Heap.set_of_ne _ (fun same => outside (List.mem_singleton.mpr same)) _
  · intro x member
    rw [List.mem_singleton.mp member]
    exact free

/-- A list set up in memory that was free before owns its anchor and nothing else. -/
theorem Owns.init {anchor : Addr} (free : base anchor = none) :
    ∃ list', linkedListInit ⟨0, anchor, base.set anchor (some ⟨none, none, none⟩)⟩ = .ok (true, list') ∧
      list'.anchor = anchor ∧ Owns base list' [] :=
  ⟨_, linkedListInit_eq .., rfl, .linked free⟩

end Owns

/-- A `LinkedList` without the memory that its elements lie in. -/
structure ListHead (Addr : Type) where
  numMembers : Int32
  anchor : Addr

def ListHead.at {Addr Obj : Type} (head : ListHead Addr) (heap : Heap Addr Obj) : LinkedList Addr Obj where
  numMembers := head.numMembers
  anchor := head.anchor
  heap

def LinkedList.head {Addr Obj : Type} (list : LinkedList Addr Obj) : ListHead Addr where
  numMembers := list.numMembers
  anchor := list.anchor

/-- Two lists side by side in one memory. -/
def Beside {Addr Obj : Type} (base heap : Heap Addr Obj) (first : ListHead Addr) (elems : List (Addr × Option Obj))
    (second : ListHead Addr) (elems' : List (Addr × Option Obj)) : Prop :=
  ∃ mid, Owns base (second.at mid) elems' ∧ Owns mid (first.at heap) elems

section Beside

variable {Addr Obj : Type} {base heap heap' : Heap Addr Obj} {first second : ListHead Addr}
  {elems elems' : List (Addr × Option Obj)}

/-- A list is where its anchor and its elements are. -/
theorem Represents.congr {list list' : LinkedList Addr Obj} (rep : Represents list elems)
    (anchor : list'.anchor = list.anchor) (count : list'.numMembers = list.numMembers)
    (same : ∀ x ∈ list.anchor :: elems.map (·.1), list'.heap x = list.heap x) : Represents list' elems where
  ring := by
    have next : ∀ x ∈ list.anchor :: elems.map (·.1), list'.heap.nextOf x = list.heap.nextOf x := fun x member => by
      rw [Heap.nextOf, Heap.nextOf, same x member]
    have prev : ∀ x ∈ list.anchor :: elems.map (·.1), list'.heap.prevOf x = list.heap.prevOf x := fun x member => by
      rw [Heap.prevOf, Heap.prevOf, same x member]
    rw [anchor]
    refine ⟨rep.ring.nodup, rep.ring.forth.congr next, rep.ring.back.congr fun x member => prev x ?_⟩
    simpa using member
  obj elem member := by
    rw [Heap.objOf, same elem.1 (List.mem_cons_of_mem _ (List.mem_map_of_mem member))]
    exact rep.obj elem member
  numMembers := count.trans rep.numMembers

variable [DecidableEq Addr]

theorem Beside.symm (beside : Beside base heap first elems second elems') :
    Beside base heap second elems' first elems := by
  obtain ⟨mid, atSecond, atFirst⟩ := beside
  have used : ∀ x ∈ second.anchor :: elems'.map (·.1), mid x ≠ none := by
    intro x member nothing
    obtain ⟨elem, here⟩ := atSecond.represents.allocated member
    cases here.symm.trans nothing
  obtain ⟨mid', below, above, firstSame, secondSame⟩ := atSecond.footprint.swap atFirst.footprint used
  exact ⟨mid', ⟨atFirst.represents.congr rfl rfl firstSame, below⟩, atSecond.represents.congr rfl rfl secondSame, above⟩

end Beside

end UCP
