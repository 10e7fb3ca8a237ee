import Mathlib.Data.Option.Basic

namespace UCP

/-- `LinkedListElem`; all its pointers may be null. -/
structure LinkedListElem (Addr Obj : Type) where
  obj : Option Obj
  next : Option Addr
  prev : Option Addr

/-- What is wrong with a pointer that cannot be followed. -/
inductive HeapFault (Addr : Type)
  | nullPointer
  | notAllocated (addr : Addr)
  | outOfFuel

/-- The elements in memory, by their addresses. -/
abbrev Heap (Addr Obj : Type) : Type := Addr → Option (LinkedListElem Addr Obj)

section Heap

variable {Addr Obj : Type} [DecidableEq Addr]

def Heap.load (heap : Heap Addr Obj) : Option Addr → Except (HeapFault Addr) (LinkedListElem Addr Obj)
  | none => .error .nullPointer
  | some addr =>
    match heap addr with
    | some elem => .ok elem
    | none => .error (.notAllocated addr)

def Heap.set (heap : Heap Addr Obj) (addr : Addr) (elem : Option (LinkedListElem Addr Obj)) : Heap Addr Obj :=
  fun x => if x = addr then elem else heap x

def Heap.store (heap : Heap Addr Obj) (elem : Option Addr)
    (write : LinkedListElem Addr Obj → LinkedListElem Addr Obj) :
    Except (HeapFault Addr) (Heap Addr Obj) :=
  match elem with
  | none => .error .nullPointer
  | some addr => do
    let old ← heap.load (some addr)
    pure (heap.set addr (some (write old)))

def Heap.setObj (heap : Heap Addr Obj) (elem : Option Addr) (obj : Option Obj) :
    Except (HeapFault Addr) (Heap Addr Obj) :=
  heap.store elem fun old => { old with obj }

def Heap.setNext (heap : Heap Addr Obj) (elem next : Option Addr) : Except (HeapFault Addr) (Heap Addr Obj) :=
  heap.store elem fun old => { old with next }

def Heap.setPrev (heap : Heap Addr Obj) (elem prev : Option Addr) : Except (HeapFault Addr) (Heap Addr Obj) :=
  heap.store elem fun old => { old with prev }

/-- The result of a call of `malloc` for an element: null, or an address with
whatever its memory happens to hold. -/
abbrev Allocation (Addr Obj : Type) : Type := Option (Addr × LinkedListElem Addr Obj)

def Heap.malloc (heap : Heap Addr Obj) : Allocation Addr Obj → Option Addr × Heap Addr Obj
  | none => (none, heap)
  | some (addr, elem) => (some addr, heap.set addr (some elem))

def Heap.free (heap : Heap Addr Obj) : Option Addr → Except (HeapFault Addr) (Heap Addr Obj)
  | none => .ok heap
  | some addr => do
    let _ ← heap.load (some addr)
    pure (heap.set addr none)

end Heap

/-- `LinkedList`, by the address of its embedded anchor, together with the memory
that its elements and the anchor lie in. -/
structure LinkedList (Addr Obj : Type) where
  numMembers : Int32
  anchor : Addr
  heap : Heap Addr Obj

section Operations

variable {Addr Obj : Type} [DecidableEq Addr]

def linkedListLength (list : LinkedList Addr Obj) : Int32 := list.numMembers

def linkedListEmpty (list : LinkedList Addr Obj) : Except (HeapFault Addr) Bool := do
  let anchor ← list.heap.load (some list.anchor)
  pure (anchor.next = some list.anchor && anchor.prev = some list.anchor)

def linkedListAppend (list : LinkedList Addr Obj) (obj : Option Obj) (allocation : Allocation Addr Obj) :
    Except (HeapFault Addr) (Bool × LinkedList Addr Obj) := do
  let (newElem, heap) := list.heap.malloc allocation
  let heap ← heap.setObj newElem obj
  if ← linkedListEmpty { list with heap } then do
    let heap ← heap.setNext (some list.anchor) newElem
    let heap ← heap.setPrev (some list.anchor) newElem
    let heap ← heap.setNext newElem (some list.anchor)
    let heap ← heap.setPrev newElem (some list.anchor)
    pure (true, { list with heap, numMembers := list.numMembers + 1 })
  else do
    let heap ← heap.setNext newElem (some list.anchor)
    let anchor ← heap.load (some list.anchor)
    let heap ← heap.setPrev newElem anchor.prev
    let anchor ← heap.load (some list.anchor)
    let heap ← heap.setNext anchor.prev newElem
    let heap ← heap.setPrev (some list.anchor) newElem
    pure (true, { list with heap, numMembers := list.numMembers + 1 })

def linkedListPrepend (list : LinkedList Addr Obj) (obj : Option Obj) (allocation : Allocation Addr Obj) :
    Except (HeapFault Addr) (Bool × LinkedList Addr Obj) := do
  let (newElem, heap) := list.heap.malloc allocation
  let heap ← heap.setObj newElem obj
  if ← linkedListEmpty { list with heap } then do
    let heap ← heap.setNext (some list.anchor) newElem
    let heap ← heap.setPrev (some list.anchor) newElem
    let heap ← heap.setNext newElem (some list.anchor)
    let heap ← heap.setPrev newElem (some list.anchor)
    pure (true, { list with heap, numMembers := list.numMembers + 1 })
  else do
    let anchor ← heap.load (some list.anchor)
    let heap ← heap.setNext newElem anchor.next
    let heap ← heap.setPrev newElem (some list.anchor)
    let anchor ← heap.load (some list.anchor)
    let heap ← heap.setPrev anchor.next newElem
    let heap ← heap.setNext (some list.anchor) newElem
    pure (true, { list with heap, numMembers := list.numMembers + 1 })

def linkedListUnlink (list : LinkedList Addr Obj) (elem : Option Addr) :
    Except (HeapFault Addr) (LinkedList Addr Obj) := do
  if ← linkedListEmpty list then pure list
  else do
    let old ← list.heap.load elem
    let heap ← list.heap.setNext old.prev old.next
    let old ← heap.load elem
    let heap ← heap.setPrev old.next old.prev
    let heap ← heap.free elem
    pure { list with heap, numMembers := list.numMembers - 1 }

def linkedListInsertAfter (list : LinkedList Addr Obj) (obj : Option Obj) (elem : Option Addr)
    (allocation : Allocation Addr Obj) : Except (HeapFault Addr) (Bool × LinkedList Addr Obj) :=
  if elem = none then linkedListAppend list obj allocation
  else
    let (newElem, heap) := list.heap.malloc allocation
    if newElem = none then pure (false, list)
    else do
      let heap ← heap.setObj newElem obj
      let old ← heap.load elem
      let heap ← heap.setNext newElem old.next
      let heap ← heap.setPrev newElem elem
      let old ← heap.load elem
      let heap ← heap.setPrev old.next newElem
      let heap ← heap.setNext elem newElem
      pure (true, { list with heap, numMembers := list.numMembers + 1 })

def linkedListInsertBefore (list : LinkedList Addr Obj) (obj : Option Obj) (elem : Option Addr)
    (allocation : Allocation Addr Obj) : Except (HeapFault Addr) (Bool × LinkedList Addr Obj) :=
  if elem = none then linkedListPrepend list obj allocation
  else
    let (newElem, heap) := list.heap.malloc allocation
    if newElem = none then pure (false, list)
    else do
      let heap ← heap.setObj newElem obj
      let heap ← heap.setNext newElem elem
      let old ← heap.load elem
      let heap ← heap.setPrev newElem old.prev
      let old ← heap.load elem
      let heap ← heap.setNext old.prev newElem
      let heap ← heap.setPrev elem newElem
      pure (true, { list with heap, numMembers := list.numMembers + 1 })

def linkedListFirst (list : LinkedList Addr Obj) : Except (HeapFault Addr) (Option Addr) := do
  if ← linkedListEmpty list then pure none
  else do
    let anchor ← list.heap.load (some list.anchor)
    pure anchor.next

def linkedListLast (list : LinkedList Addr Obj) : Except (HeapFault Addr) (Option Addr) := do
  if ← linkedListEmpty list then pure none
  else do
    let anchor ← list.heap.load (some list.anchor)
    pure anchor.prev

def linkedListNext (list : LinkedList Addr Obj) (elem : Option Addr) : Except (HeapFault Addr) (Option Addr) := do
  let elem ← list.heap.load elem
  pure (if elem.next = some list.anchor then none else elem.next)

def linkedListPrev (list : LinkedList Addr Obj) (elem : Option Addr) : Except (HeapFault Addr) (Option Addr) := do
  let elem ← list.heap.load elem
  pure (if elem.prev = some list.anchor then none else elem.prev)

/-- The loop of `LinkedListUnlinkAll`, for as many iterations as there is fuel. -/
def linkedListUnlinkAllLoop :
    Nat → LinkedList Addr Obj → Option Addr → Except (HeapFault Addr) (LinkedList Addr Obj)
  | _, list, none => pure list
  | 0, _, some _ => .error .outOfFuel
  | fuel + 1, list, some elem => do
    let nextElem ← linkedListNext list (some elem)
    let list ← linkedListUnlink list (some elem)
    linkedListUnlinkAllLoop fuel list nextElem

def linkedListUnlinkAll (fuel : Nat) (list : LinkedList Addr Obj) :
    Except (HeapFault Addr) (LinkedList Addr Obj) := do
  let elem ← linkedListFirst list
  linkedListUnlinkAllLoop fuel list elem

/-- The loop of `LinkedListFind`, for as many iterations as there is fuel. -/
def linkedListFindLoop [DecidableEq Obj] (list : LinkedList Addr Obj) (obj : Option Obj) :
    Nat → Option Addr → Except (HeapFault Addr) (Option Addr)
  | _, none => pure none
  | 0, some _ => .error .outOfFuel
  | fuel + 1, some addr => do
    let elem ← list.heap.load (some addr)
    if elem.obj = obj then pure (some addr)
    else do
      let nextElem ← linkedListNext list (some addr)
      linkedListFindLoop list obj fuel nextElem

def linkedListFind [DecidableEq Obj] (fuel : Nat) (list : LinkedList Addr Obj) (obj : Option Obj) :
    Except (HeapFault Addr) (Option Addr) := do
  if ← linkedListEmpty list then pure none
  else do
    let elem ← linkedListFirst list
    linkedListFindLoop list obj fuel elem

/-- `LinkedListInit`; it leaves `num_members` alone. -/
def linkedListInit (list : LinkedList Addr Obj) : Except (HeapFault Addr) (Bool × LinkedList Addr Obj) := do
  let heap ← list.heap.setObj (some list.anchor) none
  let heap ← heap.setPrev (some list.anchor) (some list.anchor)
  let anchor ← heap.load (some list.anchor)
  let heap ← heap.setNext (some list.anchor) anchor.prev
  pure (true, { list with heap })

end Operations

end UCP
