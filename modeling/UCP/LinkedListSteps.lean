import UCP.LinkedList

@[simp] theorem Except.ok_bind {ε α β : Type} (a : α) (f : α → Except ε β) : (Except.ok a >>= f) = f a := rfl

@[simp] theorem Except.ok_map {ε α β : Type} (a : α) (f : α → β) : (f <$> (Except.ok a : Except ε α)) = .ok (f a) := rfl

namespace UCP

section Heap

variable {Addr Obj : Type} {heap : Heap Addr Obj} {addr : Addr} {elem : LinkedListElem Addr Obj}

def Heap.objOf (heap : Heap Addr Obj) (addr : Addr) : Option Obj := (heap addr).bind (·.obj)

def Heap.nextOf (heap : Heap Addr Obj) (addr : Addr) : Option Addr := (heap addr).bind (·.next)

def Heap.prevOf (heap : Heap Addr Obj) (addr : Addr) : Option Addr := (heap addr).bind (·.prev)

@[simp] theorem Heap.load_some (here : heap addr = some elem) : heap.load (some addr) = .ok elem := by
  simp only [load, here]

variable [DecidableEq Addr]

/-- The heap with a new element linked in between `p` and `q`. -/
def Heap.linkIn (heap : Heap Addr Obj) (p n q : Addr) (obj : Option Obj) : Heap Addr Obj := fun x =>
  if x = n then some ⟨obj, some q, some p⟩
  else (heap x).map fun elem =>
    { elem with next := if x = p then some n else elem.next, prev := if x = q then some n else elem.prev }

/-- The heap with the element between `p` and `q` unlinked and freed. -/
def Heap.linkOut (heap : Heap Addr Obj) (p n q : Addr) : Heap Addr Obj := fun x =>
  if x = n then none
  else (heap x).map fun elem =>
    { elem with next := if x = p then some q else elem.next, prev := if x = q then some p else elem.prev }

@[simp] theorem Heap.set_self (heap : Heap Addr Obj) (addr : Addr) (elem : Option (LinkedListElem Addr Obj)) :
    heap.set addr elem addr = elem := if_pos rfl

theorem Heap.set_of_ne (heap : Heap Addr Obj) {addr x : Addr} (other : x ≠ addr)
    (elem : Option (LinkedListElem Addr Obj)) : heap.set addr elem x = heap x := if_neg other

@[simp] theorem Heap.set_set (heap : Heap Addr Obj) (addr : Addr) (elem elem' : Option (LinkedListElem Addr Obj)) :
    (heap.set addr elem).set addr elem' = heap.set addr elem' := by
  funext x
  by_cases here : x = addr
  · rw [here, set_self, set_self]
  · rw [set_of_ne _ here, set_of_ne _ here, set_of_ne _ here]

@[simp] theorem Heap.malloc_some (heap : Heap Addr Obj) (addr : Addr) (elem : LinkedListElem Addr Obj) :
    heap.malloc (some (addr, elem)) = (some addr, heap.set addr (some elem)) := rfl

@[simp] theorem Heap.setObj_some (here : heap addr = some elem) (obj : Option Obj) :
    heap.setObj (some addr) obj = .ok (heap.set addr (some { elem with obj })) := by
  simp only [setObj, store, load_some here]
  rfl

@[simp] theorem Heap.setNext_some (here : heap addr = some elem) (next : Option Addr) :
    heap.setNext (some addr) next = .ok (heap.set addr (some { elem with next })) := by
  simp only [setNext, store, load_some here]
  rfl

@[simp] theorem Heap.setPrev_some (here : heap addr = some elem) (prev : Option Addr) :
    heap.setPrev (some addr) prev = .ok (heap.set addr (some { elem with prev })) := by
  simp only [setPrev, store, load_some here]
  rfl

variable {p n q x : Addr} {obj : Option Obj}

@[simp] theorem Heap.nextOf_linkIn_new : (heap.linkIn p n q obj).nextOf n = some q := by
  simp [nextOf, linkIn]

@[simp] theorem Heap.prevOf_linkIn_new : (heap.linkIn p n q obj).prevOf n = some p := by
  simp [prevOf, linkIn]

@[simp] theorem Heap.objOf_linkIn_new : (heap.linkIn p n q obj).objOf n = obj := by
  simp [objOf, linkIn]

theorem Heap.nextOf_linkIn_link (old : heap p = some elem) (newP : p ≠ n) :
    (heap.linkIn p n q obj).nextOf p = some n := by
  simp [nextOf, linkIn, newP, old]

theorem Heap.prevOf_linkIn_link (old : heap q = some elem) (newQ : q ≠ n) :
    (heap.linkIn p n q obj).prevOf q = some n := by
  simp [prevOf, linkIn, newQ, old]

theorem Heap.nextOf_linkIn_of_ne (new : x ≠ n) (other : x ≠ p) :
    (heap.linkIn p n q obj).nextOf x = heap.nextOf x := by
  cases here : heap x <;> simp [nextOf, linkIn, new, other, here]

theorem Heap.prevOf_linkIn_of_ne (new : x ≠ n) (other : x ≠ q) :
    (heap.linkIn p n q obj).prevOf x = heap.prevOf x := by
  cases here : heap x <;> simp [prevOf, linkIn, new, other, here]

theorem Heap.objOf_linkIn_of_ne (new : x ≠ n) : (heap.linkIn p n q obj).objOf x = heap.objOf x := by
  cases here : heap x <;> simp [objOf, linkIn, new, here]

theorem Heap.nextOf_linkOut_link (old : heap p = some elem) (newP : p ≠ n) :
    (heap.linkOut p n q).nextOf p = some q := by
  simp [nextOf, linkOut, newP, old]

theorem Heap.prevOf_linkOut_link (old : heap q = some elem) (newQ : q ≠ n) :
    (heap.linkOut p n q).prevOf q = some p := by
  simp [prevOf, linkOut, newQ, old]

theorem Heap.nextOf_linkOut_of_ne (new : x ≠ n) (other : x ≠ p) :
    (heap.linkOut p n q).nextOf x = heap.nextOf x := by
  cases here : heap x <;> simp [nextOf, linkOut, new, other, here]

theorem Heap.prevOf_linkOut_of_ne (new : x ≠ n) (other : x ≠ q) :
    (heap.linkOut p n q).prevOf x = heap.prevOf x := by
  cases here : heap x <;> simp [prevOf, linkOut, new, other, here]

theorem Heap.objOf_linkOut_of_ne (new : x ≠ n) : (heap.linkOut p n q).objOf x = heap.objOf x := by
  cases here : heap x <;> simp [objOf, linkOut, new, here]

end Heap

section Place

variable {Addr Obj : Type} {list : LinkedList Addr Obj} {p n q : Addr} {atP atQ : LinkedListElem Addr Obj}

/-- What a call finds at the place of the list where it links in the element
`n`: the elements on both sides, either of which may be the anchor. -/
structure Place (list : LinkedList Addr Obj) (p n q : Addr) (atP atQ : LinkedListElem Addr Obj) : Prop where
  oldP : list.heap p = some atP
  oldQ : list.heap q = some atQ
  next : atP.next = some q
  prev : atQ.prev = some p
  newP : p ≠ n
  newQ : q ≠ n

variable [DecidableEq Addr]

/-- The result of every call that inserts: the element is linked in. -/
def LinkedList.inserted (list : LinkedList Addr Obj) (p n q : Addr) (obj : Option Obj) : LinkedList Addr Obj :=
  { list with heap := list.heap.linkIn p n q obj, numMembers := list.numMembers + 1 }

/-- The writes to the links leave the heap with the new element linked in. -/
theorem Place.linkIn (place : Place list p n q atP atQ) (apart : p ≠ q) (obj : Option Obj) :
    ((list.heap.set n (some ⟨obj, some q, some p⟩)).set q (some { atQ with prev := some n })).set p
      (some { atP with next := some n }) = list.heap.linkIn p n q obj := by
  funext x
  rw [Heap.linkIn]
  by_cases isP : x = p
  · simp [isP, place.newP, place.oldP, apart]
  by_cases isQ : x = q
  · simp [isQ, Heap.set_of_ne, place.newQ, place.oldQ, apart.symm]
  by_cases isNew : x = n
  · simp [isNew, Heap.set_of_ne, place.newP.symm, place.newQ.symm]
  · simp [isP, isQ, isNew, Heap.set_of_ne]

theorem Heap.set_comm (heap : Heap Addr Obj) (apart : p ≠ q) (atP atQ : Option (LinkedListElem Addr Obj)) :
    (heap.set p atP).set q atQ = (heap.set q atQ).set p atP := by
  funext x
  by_cases isP : x = p
  · simp [isP, set_of_ne, apart]
  · by_cases isQ : x = q
    · simp [isQ, set_of_ne, apart.symm]
    · simp [set_of_ne, isP, isQ]

theorem Place.linkIn_self (place : Place list p n p atP atP) (obj : Option Obj) :
    (list.heap.set p (some { atP with next := some n, prev := some n })).set n (some ⟨obj, some p, some p⟩) =
      list.heap.linkIn p n p obj := by
  funext x
  rw [Heap.linkIn]
  by_cases isP : x = p
  · simp [isP, Heap.set_of_ne, place.newP, place.oldP]
  by_cases isNew : x = n
  · simp [isNew]
  · simp [isP, isNew, Heap.set_of_ne]

theorem Place.append (place : Place list p n list.anchor atP atQ) (obj : Option Obj)
    (junk : LinkedListElem Addr Obj) :
    linkedListAppend list obj (some (n, junk)) = .ok (true, list.inserted p n list.anchor obj) := by
  have newP := place.newP
  have newQ := place.newQ
  by_cases empty : p = list.anchor
  · obtain rfl : atP = atQ := Option.some.inj (place.oldP.symm.trans (empty ▸ place.oldQ))
    subst empty
    have run : linkedListAppend list obj (some (n, junk)) = .ok (true, { list with
        heap := ((list.heap.set n (some { junk with obj })).set list.anchor
          (some { atP with next := some n, prev := some n })).set n (some ⟨obj, some list.anchor, some list.anchor⟩)
        numMembers := list.numMembers + 1 }) := by
      simp [linkedListAppend, linkedListEmpty, Heap.set_of_ne, newP, newP.symm, place.oldP, place.next, place.prev]
    rw [run, Heap.set_comm _ newP.symm, Heap.set_set, place.linkIn_self]
    rfl
  · have run : linkedListAppend list obj (some (n, junk)) = .ok (true, { list with
        heap := ((list.heap.set n (some ⟨obj, some list.anchor, some p⟩)).set p (some { atP with next := some n })).set
          list.anchor (some { atQ with prev := some n })
        numMembers := list.numMembers + 1 }) := by
      simp [linkedListAppend, linkedListEmpty, Heap.set_of_ne, newP, newQ, place.oldP, place.oldQ, place.prev, empty,
        Ne.symm empty]
    rw [run, Heap.set_comm _ empty, place.linkIn empty]
    rfl

theorem Place.prepend (place : Place list list.anchor n q atP atQ) (obj : Option Obj)
    (junk : LinkedListElem Addr Obj) :
    linkedListPrepend list obj (some (n, junk)) = .ok (true, list.inserted list.anchor n q obj) := by
  have newP := place.newP
  have newQ := place.newQ
  by_cases empty : list.anchor = q
  · obtain rfl : atP = atQ := Option.some.inj (place.oldP.symm.trans (empty ▸ place.oldQ))
    subst empty
    have run : linkedListPrepend list obj (some (n, junk)) = .ok (true, { list with
        heap := ((list.heap.set n (some { junk with obj })).set list.anchor
          (some { atP with next := some n, prev := some n })).set n (some ⟨obj, some list.anchor, some list.anchor⟩)
        numMembers := list.numMembers + 1 }) := by
      simp [linkedListPrepend, linkedListEmpty, Heap.set_of_ne, newP, newP.symm, place.oldP, place.next, place.prev]
    rw [run, Heap.set_comm _ newP.symm, Heap.set_set, place.linkIn_self]
    rfl
  · have run : linkedListPrepend list obj (some (n, junk)) = .ok (true, { list with
        heap := ((list.heap.set n (some ⟨obj, some q, some list.anchor⟩)).set q (some { atQ with prev := some n })).set
          list.anchor (some { atP with next := some n })
        numMembers := list.numMembers + 1 }) := by
      simp [linkedListPrepend, linkedListEmpty, Heap.set_of_ne, newP, newQ, place.oldP, place.oldQ, place.next, empty,
        Ne.symm empty]
    rw [run, place.linkIn empty]
    rfl

theorem Place.insertAfter (place : Place list p n q atP atQ) (apart : p ≠ q) (obj : Option Obj)
    (junk : LinkedListElem Addr Obj) :
    linkedListInsertAfter list obj (some p) (some (n, junk)) = .ok (true, list.inserted p n q obj) := by
  have newP := place.newP
  have newQ := place.newQ
  have run : linkedListInsertAfter list obj (some p) (some (n, junk)) = .ok (true, { list with
      heap := ((list.heap.set n (some ⟨obj, some q, some p⟩)).set q (some { atQ with prev := some n })).set p
        (some { atP with next := some n })
      numMembers := list.numMembers + 1 }) := by
    simp [linkedListInsertAfter, Heap.set_of_ne, newP, newQ, place.oldP, place.oldQ, place.next, apart]
  rw [run, place.linkIn apart]
  rfl

theorem Place.insertBefore (place : Place list p n q atP atQ) (apart : p ≠ q) (obj : Option Obj)
    (junk : LinkedListElem Addr Obj) :
    linkedListInsertBefore list obj (some q) (some (n, junk)) = .ok (true, list.inserted p n q obj) := by
  have newP := place.newP
  have newQ := place.newQ
  have run : linkedListInsertBefore list obj (some q) (some (n, junk)) = .ok (true, { list with
      heap := ((list.heap.set n (some ⟨obj, some q, some p⟩)).set p (some { atP with next := some n })).set q
        (some { atQ with prev := some n })
      numMembers := list.numMembers + 1 }) := by
    simp [linkedListInsertBefore, Heap.set_of_ne, newP, newQ, place.oldP, place.oldQ, place.prev, apart.symm]
  rw [run, Heap.set_comm _ apart, place.linkIn apart]
  rfl

/-- The result of `LinkedListUnlink` on an element of the list. -/
def LinkedList.removed (list : LinkedList Addr Obj) (p n q : Addr) : LinkedList Addr Obj :=
  { list with heap := list.heap.linkOut p n q, numMembers := list.numMembers - 1 }

/-- What `LinkedListUnlink` finds: the element between its neighbours, which may
both be the anchor. -/
structure Linked (list : LinkedList Addr Obj) (p n q : Addr) (atP atN atQ : LinkedListElem Addr Obj) : Prop where
  oldP : list.heap p = some atP
  oldN : list.heap n = some atN
  oldQ : list.heap q = some atQ
  next : atN.next = some q
  prev : atN.prev = some p
  newP : p ≠ n
  newQ : q ≠ n

theorem Linked.linkOut {atN : LinkedListElem Addr Obj} (linked : Linked list p n q atP atN atQ) (apart : p ≠ q) :
    ((list.heap.set p (some { atP with next := some q })).set q (some { atQ with prev := some p })).set n none =
      list.heap.linkOut p n q := by
  funext x
  rw [Heap.linkOut]
  by_cases isNew : x = n
  · simp [isNew]
  by_cases isP : x = p
  · simp [isP, Heap.set_of_ne, linked.newP, linked.oldP, apart]
  by_cases isQ : x = q
  · simp [isQ, Heap.set_of_ne, linked.newQ, linked.oldQ, apart.symm]
  · simp [isP, isQ, isNew, Heap.set_of_ne]

theorem Linked.linkOut_self {atN : LinkedListElem Addr Obj} (linked : Linked list p n p atP atN atP) :
    (list.heap.set p (some { atP with next := some p, prev := some p })).set n none = list.heap.linkOut p n p := by
  funext x
  rw [Heap.linkOut]
  by_cases isNew : x = n
  · simp [isNew]
  by_cases isP : x = p
  · simp [isP, Heap.set_of_ne, linked.newP, linked.oldP]
  · simp [isP, isNew, Heap.set_of_ne]

theorem Linked.unlink {atN : LinkedListElem Addr Obj} (linked : Linked list p n q atP atN atQ)
    (nonempty : linkedListEmpty list = .ok false) :
    linkedListUnlink list (some n) = .ok (list.removed p n q) := by
  have newP := linked.newP
  have newQ := linked.newQ
  by_cases apart : p = q
  · subst apart
    obtain rfl : atP = atQ := Option.some.inj (linked.oldP.symm.trans linked.oldQ)
    have run : linkedListUnlink list (some n) = .ok { list with
        heap := (list.heap.set p (some { atP with next := some p, prev := some p })).set n none
        numMembers := list.numMembers - 1 } := by
      simp [linkedListUnlink, nonempty, Heap.set_of_ne, newP.symm, linked.oldP, linked.oldN, linked.next,
        linked.prev, Heap.free]
    rw [run, linked.linkOut_self]
    rfl
  · have run : linkedListUnlink list (some n) = .ok { list with
        heap := ((list.heap.set p (some { atP with next := some q })).set q (some { atQ with prev := some p })).set n none
        numMembers := list.numMembers - 1 } := by
      simp [linkedListUnlink, nonempty, Heap.set_of_ne, newP.symm, newQ.symm, Ne.symm apart, linked.oldP, linked.oldN,
        linked.oldQ, linked.next, linked.prev, Heap.free]
    rw [run, linked.linkOut apart]
    rfl

end Place

end UCP
