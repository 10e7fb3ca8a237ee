import Mathlib.Algebra.Group.Nat.Defs
import UCP.LinkedListRefinement

namespace UCP

section Calls

variable {Addr Obj : Type}

/-- One call of the module. An insertion comes with the address that `malloc`
returns and what its memory happens to hold, the loop over all elements with
the fuel for its iterations. -/
inductive LinkedListCall (Addr Obj : Type)
  | append (obj : Option Obj) (allocated : Addr × LinkedListElem Addr Obj)
  | prepend (obj : Option Obj) (allocated : Addr × LinkedListElem Addr Obj)
  | insertAfter (obj : Option Obj) (elem : Option Addr) (allocated : Addr × LinkedListElem Addr Obj)
  | insertBefore (obj : Option Obj) (elem : Option Addr) (allocated : Addr × LinkedListElem Addr Obj)
  | unlink (elem : Addr)
  | unlinkAll (fuel : Nat)

/-- What the call returns when all is well; the calls that unlink return nothing. -/
def LinkedListCall.answer : LinkedListCall Addr Obj → Option Bool
  | unlink _ | unlinkAll _ => none
  | _ => some true

/-- The memory that `malloc` returns is not in use, the list stays below 2^31
members, and an element argument is a member of the list; for the insertions it
may be null. -/
def LinkedListCall.Valid (list : LinkedList Addr Obj) (elems : List (Addr × Option Obj)) :
    LinkedListCall Addr Obj → Prop
  | append _ allocated | prepend _ allocated => list.heap allocated.1 = none ∧ elems.length + 1 < 2 ^ 31
  | insertAfter _ elem allocated | insertBefore _ elem allocated =>
    list.heap allocated.1 = none ∧ elems.length + 1 < 2 ^ 31 ∧ ∀ addr ∈ elem, addr ∈ elems.map (·.1)
  | unlink elem => elem ∈ elems.map (·.1)
  | unlinkAll fuel => elems.length ≤ fuel

variable [DecidableEq Addr]

def linkedListCall (list : LinkedList Addr Obj) :
    LinkedListCall Addr Obj → Except (HeapFault Addr) (Option Bool × LinkedList Addr Obj)
  | .append obj allocated => Prod.map some id <$> linkedListAppend list obj (some allocated)
  | .prepend obj allocated => Prod.map some id <$> linkedListPrepend list obj (some allocated)
  | .insertAfter obj elem allocated => Prod.map some id <$> linkedListInsertAfter list obj elem (some allocated)
  | .insertBefore obj elem allocated => Prod.map some id <$> linkedListInsertBefore list obj elem (some allocated)
  | .unlink elem => Prod.mk none <$> linkedListUnlink list (some elem)
  | .unlinkAll fuel => Prod.mk none <$> linkedListUnlinkAll fuel list

/-- A sequence with the element at one address replaced, all others kept. -/
def editAt (addr : Addr) (edit : Addr × Option Obj → List (Addr × Option Obj)) (elems : List (Addr × Option Obj)) :
    List (Addr × Option Obj) :=
  elems.flatMap fun elem => if elem.1 = addr then edit elem else [elem]

/-- What a call means for the sequence of the elements and their objects. -/
def LinkedListCall.apply : LinkedListCall Addr Obj → List (Addr × Option Obj) → List (Addr × Option Obj)
  | append obj allocated, elems => elems ++ [(allocated.1, obj)]
  | prepend obj allocated, elems => (allocated.1, obj) :: elems
  | insertAfter obj none allocated, elems => elems ++ [(allocated.1, obj)]
  | insertAfter obj (some elem) allocated, elems => editAt elem (fun old => [old, (allocated.1, obj)]) elems
  | insertBefore obj none allocated, elems => (allocated.1, obj) :: elems
  | insertBefore obj (some elem) allocated, elems => editAt elem (fun old => [(allocated.1, obj), old]) elems
  | unlink elem, elems => editAt elem (fun _ => []) elems
  | unlinkAll _, _ => []

/-- A valid call changes the memory as the code does and the sequence as the
call says. -/
def LinkedListStep (s : LinkedList Addr Obj × List (Addr × Option Obj)) (call : LinkedListCall Addr Obj)
    (s' : LinkedList Addr Obj × List (Addr × Option Obj)) : Prop :=
  call.Valid s.1 s.2 ∧ (∃ answer, linkedListCall s.1 call = .ok (answer, s'.1)) ∧ s'.2 = call.apply s.2

variable {elems left right : List (Addr × Option Obj)} {elem : Addr × Option Obj}

theorem editAt_of_not_mem (edit : Addr × Option Obj → List (Addr × Option Obj)) {addr : Addr}
    (outside : addr ∉ elems.map (·.1)) : editAt addr edit elems = elems := by
  induction elems with
  | nil => rfl
  | cons elem elems ih =>
    rw [List.map_cons, List.mem_cons, not_or] at outside
    have rest := ih outside.2
    rw [editAt] at rest ⊢
    rw [List.flatMap_cons, if_neg (Ne.symm outside.1), rest, List.singleton_append]

theorem editAt_eq {edit : Addr × Option Obj → List (Addr × Option Obj)}
    (nodup : ((left ++ elem :: right).map (·.1)).Nodup) :
    editAt elem.1 edit (left ++ elem :: right) = left ++ (edit elem ++ right) := by
  rw [List.map_append, List.map_cons] at nodup
  have outside := (List.nodup_cons.mp (List.nodup_middle.mp nodup)).1
  rw [List.mem_append, not_or] at outside
  have sameLeft := editAt_of_not_mem edit outside.1
  have sameRight := editAt_of_not_mem edit outside.2
  rw [editAt] at sameLeft sameRight ⊢
  rw [List.flatMap_append, List.flatMap_cons, if_pos rfl, sameLeft, sameRight]

end Calls

section Sequence

variable {Addr Obj : Type} {list : LinkedList Addr Obj} {elems : List (Addr × Option Obj)}

theorem Represents.exists_split (rep : Represents list elems) {addr : Addr} (member : addr ∈ elems.map (·.1)) :
    ∃ left elem right, elems = left ++ elem :: right ∧ elem.1 = addr ∧
      ((left ++ elem :: right).map (·.1)).Nodup := by
  obtain ⟨elem, inside, rfl⟩ := List.mem_map.mp member
  obtain ⟨left, right, rfl⟩ := List.append_of_mem inside
  exact ⟨left, elem, right, rfl, rfl, (List.nodup_cons.mp rep.ring.nodup).2⟩

variable [DecidableEq Addr]

/-- What one call keeps: it succeeds, and the memory holds the sequence that the
call means, of less than 2^31 members. -/
theorem Represents.call (rep : Represents list elems) (bounded : elems.length < 2 ^ 31)
    {call : LinkedListCall Addr Obj} (valid : call.Valid list elems) :
    ∃ list', linkedListCall list call = .ok (call.answer, list') ∧ list'.anchor = list.anchor ∧
      Represents list' (call.apply elems) ∧ (call.apply elems).length < 2 ^ 31 := by
  cases call with
  | append obj allocated =>
    obtain ⟨list', ran, anchor, rep'⟩ := rep.append valid.1 obj allocated.2
    refine ⟨list', congrArg (Functor.map (Prod.map some id)) ran, anchor, rep', ?_⟩
    simpa [LinkedListCall.apply] using valid.2
  | prepend obj allocated =>
    obtain ⟨list', ran, anchor, rep'⟩ := rep.prepend valid.1 obj allocated.2
    refine ⟨list', congrArg (Functor.map (Prod.map some id)) ran, anchor, rep', ?_⟩
    simpa [LinkedListCall.apply] using valid.2
  | insertAfter obj elem allocated =>
    obtain ⟨fresh, room, member⟩ := valid
    cases elem with
    | none =>
      obtain ⟨list', ran, anchor, rep'⟩ := rep.append fresh obj allocated.2
      refine ⟨list', congrArg (Functor.map (Prod.map some id)) ran, anchor, rep', ?_⟩
      simpa [LinkedListCall.apply] using room
    | some addr =>
      obtain ⟨left, elem, right, rfl, rfl, nodup⟩ := rep.exists_split (member addr rfl)
      obtain ⟨list', ran, anchor, rep'⟩ := rep.insertAfter fresh obj allocated.2
      refine ⟨list', congrArg (Functor.map (Prod.map some id)) ran, anchor, ?_⟩
      rw [LinkedListCall.apply, editAt_eq nodup]
      refine ⟨rep', ?_⟩
      simp at room ⊢
      omega
  | insertBefore obj elem allocated =>
    obtain ⟨fresh, room, member⟩ := valid
    cases elem with
    | none =>
      obtain ⟨list', ran, anchor, rep'⟩ := rep.prepend fresh obj allocated.2
      refine ⟨list', congrArg (Functor.map (Prod.map some id)) ran, anchor, rep', ?_⟩
      simpa [LinkedListCall.apply] using room
    | some addr =>
      obtain ⟨left, elem, right, rfl, rfl, nodup⟩ := rep.exists_split (member addr rfl)
      obtain ⟨list', ran, anchor, rep'⟩ := rep.insertBefore fresh obj allocated.2
      refine ⟨list', congrArg (Functor.map (Prod.map some id)) ran, anchor, ?_⟩
      rw [LinkedListCall.apply, editAt_eq nodup]
      refine ⟨rep', ?_⟩
      simp at room ⊢
      omega
  | unlink addr =>
    obtain ⟨left, elem, right, rfl, rfl, nodup⟩ := rep.exists_split valid
    obtain ⟨list', ran, anchor, rep'⟩ := rep.unlink
    refine ⟨list', congrArg (Functor.map (Prod.mk none)) ran, anchor, ?_⟩
    rw [LinkedListCall.apply, editAt_eq nodup]
    refine ⟨rep', ?_⟩
    simp at bounded ⊢
    omega
  | unlinkAll fuel =>
    obtain ⟨list', ran, anchor, rep'⟩ := rep.unlinkAll valid
    exact ⟨list', congrArg (Functor.map (Prod.mk none)) ran, anchor, rep', Nat.two_pow_pos 31⟩

/-- The list in memory reads as a sequence, through the links in both directions
and through every function of the module that looks at it. -/
structure ReadsAs [DecidableEq Obj] (list : LinkedList Addr Obj) (elems : List (Addr × Option Obj)) : Prop where
  nodup : (list.anchor :: elems.map (·.1)).Nodup
  forth : LinkPath list.heap.nextOf list.anchor (elems.map (·.1)) list.anchor
  back : LinkPath list.heap.prevOf list.anchor (elems.map (·.1)).reverse list.anchor
  obj : ∀ elem ∈ elems, list.heap.objOf elem.1 = elem.2
  length : (linkedListLength list).toInt = elems.length
  empty : linkedListEmpty list = .ok elems.isEmpty
  first : linkedListFirst list = .ok (elems.head?.map (·.1))
  last : linkedListLast list = .ok (elems.getLast?.map (·.1))
  next : ∀ left elem right, elems = left ++ elem :: right →
    linkedListNext list (some elem.1) = .ok (right.head?.map (·.1))
  prev : ∀ left elem right, elems = left ++ elem :: right →
    linkedListPrev list (some elem.1) = .ok (left.getLast?.map (·.1))
  find : ∀ fuel obj, elems.length ≤ fuel → linkedListFind fuel list obj = .ok ((elems.find? (·.2 = obj)).map (·.1))

theorem Represents.readsAs [DecidableEq Obj] (rep : Represents list elems) (bounded : elems.length < 2 ^ 31) :
    ReadsAs list elems where
  nodup := rep.ring.nodup
  forth := rep.ring.forth
  back := rep.ring.back
  obj := rep.obj
  length := by
    rw [linkedListLength, rep.numMembers]
    exact Int32.toInt_ofNat_of_lt bounded
  empty := rep.empty
  first := rep.first
  last := rep.last
  next := by
    rintro left elem right rfl
    exact rep.next
  prev := by
    rintro left elem right rfl
    exact rep.prev
  find fuel obj enough := rep.find enough obj

/-- `LinkedListInit` makes a zeroed list the empty list. -/
theorem linkedListInit_represents (anchor : list.heap list.anchor = some ⟨none, none, none⟩)
    (numMembers : list.numMembers = 0) : ∃ list', linkedListInit list = .ok (true, list') ∧
      list'.anchor = list.anchor ∧ Represents list' [] := by
  have ran : linkedListInit list = .ok (true, { list with
      heap := list.heap.set list.anchor (some ⟨none, some list.anchor, some list.anchor⟩) }) := by
    simp [linkedListInit, anchor]
  refine ⟨_, ran, rfl, ⟨List.nodup_singleton _, ?_, ?_⟩, fun elem member => absurd member List.not_mem_nil, numMembers⟩
  · simp [LinkPath, Heap.nextOf]
  · simp [LinkPath, Heap.prevOf]

theorem linkedListStep_invariant {s : LinkedList Addr Obj × List (Addr × Option Obj)}
    {calls : List (LinkedListCall Addr Obj)} (rep : Represents list [])
    (run : Run LinkedListStep (list, []) calls s) :
    Represents s.1 s.2 ∧ s.2.length < 2 ^ 31 ∧ s.1.anchor = list.anchor ∧
      s.2 = calls.foldl (fun elems call => call.apply elems) [] := by
  refine run.invariant (fun calls s => Represents s.1 s.2 ∧ s.2.length < 2 ^ 31 ∧ s.1.anchor = list.anchor ∧
    s.2 = calls.foldl (fun elems call => call.apply elems) []) ⟨rep, Nat.two_pow_pos 31, rfl, rfl⟩ ?_
  rintro calls s call s' _ ⟨rep, bounded, sameAnchor, folded⟩ ⟨valid, ⟨answer, ran⟩, edited⟩
  obtain ⟨list', ran', anchor, rep', bounded'⟩ := rep.call bounded valid
  obtain rfl : s'.1 = list' := congrArg Prod.snd (Except.ok.inj (ran.symm.trans ran'))
  rw [edited]
  refine ⟨rep', bounded', anchor.trans sameAnchor, ?_⟩
  rw [List.foldl_append, ← folded]
  rfl

/-- From a zeroed list on, every sequence of calls succeeds, and the list in
memory always reads as the sequence that the calls mean. -/
theorem linked_list_refines_sequence [DecidableEq Obj] {zeroed : LinkedList Addr Obj}
    (anchor : zeroed.heap zeroed.anchor = some ⟨none, none, none⟩) (numMembers : zeroed.numMembers = 0) :
    ∃ list, linkedListInit zeroed = .ok (true, list) ∧ ∀ calls s, Run LinkedListStep (list, []) calls s →
      s.1.anchor = zeroed.anchor ∧ s.2 = calls.foldl (fun elems call => call.apply elems) [] ∧ ReadsAs s.1 s.2 ∧
      ∀ call : LinkedListCall Addr Obj, call.Valid s.1 s.2 →
        ∃ list', linkedListCall s.1 call = .ok (call.answer, list') := by
  obtain ⟨list, init, sameAnchor, rep⟩ := linkedListInit_represents anchor numMembers
  refine ⟨list, init, fun calls s run => ?_⟩
  obtain ⟨rep', bounded, stays, folded⟩ := linkedListStep_invariant rep run
  refine ⟨stays.trans sameAnchor, folded, rep'.readsAs bounded, fun call valid => ?_⟩
  obtain ⟨list', ran, _⟩ := rep'.call bounded valid
  exact ⟨list', ran⟩

/-- Zeroed memory for a list at address 0, nothing else allocated. -/
def zeroedList : LinkedList Nat Nat where
  numMembers := 0
  anchor := 0
  heap := fun addr => if addr = 0 then some ⟨none, none, none⟩ else none

/-- An element is appended, another inserted in front of it, and the first unlinked. -/
theorem linked_list_refines_sequence_three_calls :
    let junk : LinkedListElem Nat Nat := ⟨some 9, some 9, none⟩
    let calls := [.append (some 7) (1, junk), .insertBefore (some 8) (some 1) (2, junk), .unlink 1]
    ∃ list s, linkedListInit zeroedList = .ok (true, list) ∧ Run LinkedListStep (list, []) calls s ∧
      s.2 = [(2, some 8)] ∧ ReadsAs s.1 s.2 := by
  intro junk calls
  obtain ⟨list, init, runs⟩ := linked_list_refines_sequence (rfl : zeroedList.heap 0 = some ⟨none, none, none⟩) rfl
  have run : ∃ s, Run LinkedListStep (list, []) calls s := by
    cases init
    refine ⟨(_, [(2, some 8)]), .cons (s := (_, [(1, some 7)])) ⟨?_, ⟨_, rfl⟩, rfl⟩
      (.cons (s := (_, [(2, some 8), (1, some 7)])) ⟨?_, ⟨_, rfl⟩, rfl⟩ (.cons ⟨?_, ⟨_, rfl⟩, rfl⟩ .start))⟩
    · exact ⟨rfl, by decide⟩
    · exact ⟨rfl, by decide, by decide⟩
    · exact List.mem_cons_of_mem _ (List.mem_singleton_self _)
  obtain ⟨s, run⟩ := run
  obtain ⟨_, folded, readsAs, _⟩ := runs calls s run
  exact ⟨_, s, init, run, folded.trans (by decide), readsAs⟩

end Sequence

end UCP
