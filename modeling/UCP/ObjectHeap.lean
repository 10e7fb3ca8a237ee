import Mathlib.Algebra.Group.Nat.Defs
import Mathlib.Logic.Function.Basic
import UCP.LinkedListFootprint

namespace UCP

/-- The objects of one type in memory, by their addresses. -/
abbrev ObjectHeap (Addr Value : Type) : Type := Addr → Option Value

section ObjectHeap

variable {Addr Value : Type} [DecidableEq Addr]

def ObjectHeap.load (objects : ObjectHeap Addr Value) : Option Addr → Except (HeapFault Addr) Value
  | none => .error .nullPointer
  | some addr =>
    match objects addr with
    | some value => .ok value
    | none => .error (.notAllocated addr)

def ObjectHeap.store (objects : ObjectHeap Addr Value) (obj : Option Addr) (write : Value → Value) :
    Except (HeapFault Addr) (ObjectHeap Addr Value) :=
  match obj with
  | none => .error .nullPointer
  | some addr => do
    let old ← objects.load (some addr)
    pure (Function.update objects addr (some (write old)))

/-- The result of `malloc`, which is null or an address, and the memory once the
object is written there. -/
def ObjectHeap.malloc (objects : ObjectHeap Addr Value) (allocation : Option Addr) (value : Value) :
    Option Addr × ObjectHeap Addr Value :=
  match allocation with
  | none => (none, objects)
  | some addr => (some addr, Function.update objects addr (some value))

def ObjectHeap.free (objects : ObjectHeap Addr Value) :
    Option Addr → Except (HeapFault Addr) (ObjectHeap Addr Value)
  | none => .ok objects
  | some addr => do
    let _ ← objects.load (some addr)
    pure (Function.update objects addr none)

/-- `elem->obj`. -/
def LinkedList.obj (list : LinkedList Addr Addr) (elem : Option Addr) : Except (HeapFault Addr) (Option Addr) :=
  (·.obj) <$> list.heap.load elem

end ObjectHeap

/-- What `malloc` returns for an object and then for the list element that holds it. -/
structure ObjectAllocation (Addr : Type) where
  obj : Option Addr
  elem : Allocation Addr Addr

/-- Memory for the elements of a list and for the objects that they point to. -/
structure Memory (Addr Value : Type) where
  heap : Heap Addr Addr
  objects : ObjectHeap Addr Value

/-- An element of a list in memory and the object that it points to, if any, both
with their addresses. -/
structure Cell (Addr Value : Type) where
  addr : Addr
  object : Option (Addr × Value)

section Cell

variable {Addr Value : Type}

def Cell.obj (cell : Cell Addr Value) : Option Addr := cell.object.map (·.1)

def Cell.elem (cell : Cell Addr Value) : Addr × Option Addr := (cell.addr, cell.obj)

def Cell.value (cell : Cell Addr Value) : Option Value := cell.object.map (·.2)

@[simp] theorem Cell.obj_some (addr : Addr) (object : Addr × Value) : Cell.obj ⟨addr, some object⟩ = some object.1 := rfl

@[simp] theorem Cell.obj_none (addr : Addr) : (⟨addr, none⟩ : Cell Addr Value).obj = none := rfl

@[simp] theorem Cell.value_some (addr : Addr) (object : Addr × Value) :
    Cell.value ⟨addr, some object⟩ = some object.2 := rfl

@[simp] theorem Cell.value_none (addr : Addr) : (⟨addr, none⟩ : Cell Addr Value).value = none := rfl

theorem Cell.objects_some (left right : List (Cell Addr Value)) (addr : Addr) (object : Addr × Value) :
    (left ++ ⟨addr, some object⟩ :: right).filterMap Cell.object =
      left.filterMap Cell.object ++ object :: right.filterMap Cell.object := by
  rw [List.filterMap_append]
  rfl

theorem Cell.objects_none (left right : List (Cell Addr Value)) (addr : Addr) :
    (left ++ ⟨addr, none⟩ :: right).filterMap Cell.object = (left ++ right).filterMap Cell.object := by
  rw [List.filterMap_append, List.filterMap_append]
  rfl

end Cell

/-- An element of a list in memory with the object that it points to. -/
structure Slot (Addr Value : Type) where
  addr : Addr
  object : Addr × Value

section Slot

variable {Addr Value : Type}

def Slot.elem (slot : Slot Addr Value) : Addr × Option Addr := (slot.addr, some slot.object.1)

def Slot.value (slot : Slot Addr Value) : Value := slot.object.2

end Slot

/-- The list in memory holds these cells, and of the memory around it, which is
the base memory, it owns just its anchor, their elements and their objects. -/
structure Holds {Addr Value : Type} (base : Memory Addr Value) (list : LinkedList Addr Addr)
    (objects : ObjectHeap Addr Value) (cells : List (Cell Addr Value)) : Prop where
  list : Owns base.heap list (cells.map Cell.elem)
  objects : Stores base.objects objects (cells.filterMap Cell.object)

section Readers

variable {Addr Value : Type} {base : Memory Addr Value} {list : LinkedList Addr Addr}
  {objects : ObjectHeap Addr Value}
  {cells left right : List (Cell Addr Value)} {cell : Cell Addr Value} {addr obj : Addr} {value : Value}

/-- The same place, with the cell at it behind instead of ahead. -/
theorem Holds.onward (holds : Holds base list objects (left ++ cell :: right)) :
    Holds base list objects ((left ++ [cell]) ++ right) := by
  rwa [List.append_assoc, List.singleton_append]

theorem Holds.listAt (holds : Holds base list objects (left ++ cell :: right)) :
    Owns base.heap list (left.map Cell.elem ++ cell.elem :: right.map Cell.elem) := by
  have list := holds.list
  rwa [List.map_append, List.map_cons] at list

theorem Holds.objectsAt (holds : Holds base list objects (left ++ ⟨addr, some (obj, value)⟩ :: right)) :
    Stores base.objects objects (left.filterMap Cell.object ++ (obj, value) :: right.filterMap Cell.object) := by
  rw [← Cell.objects_some]
  exact holds.objects

theorem Represents.objAt {front behind : List (Addr × Option Addr)} {elem : Addr × Option Addr}
    (rep : Represents list (front ++ elem :: behind)) : list.obj (some elem.1) = .ok elem.2 := by
  obtain ⟨atElem, here, same, _⟩ := rep.atElem
  rw [LinkedList.obj, Heap.load_some here, Except.ok_map, same]

theorem Holds.objAt (holds : Holds base list objects (left ++ cell :: right)) :
    list.obj (some cell.addr) = .ok cell.obj :=
  holds.listAt.represents.objAt

theorem ObjectHeap.load_some (here : objects obj = some value) : objects.load (some obj) = .ok value := by
  simp only [load, here]

theorem Holds.load (holds : Holds base list objects (left ++ ⟨addr, some (obj, value)⟩ :: right)) :
    objects.load (some obj) = .ok value :=
  ObjectHeap.load_some holds.objectsAt.load

/-- `num_members` counts right as long as the count fits. -/
theorem Holds.count (holds : Holds base list objects cells) (bounded : cells.length < 2 ^ 31) :
    (linkedListLength list).toInt = cells.length := by
  rw [linkedListLength, holds.list.represents.numMembers, List.length_map, Int32.toInt_ofNat_of_lt bounded]

variable [DecidableEq Addr]

theorem Holds.first (holds : Holds base list objects cells) :
    linkedListFirst list = .ok (cells.head?.map Cell.addr) := by
  rw [holds.list.represents.first, List.head?_map, Option.map_map]
  rfl

theorem Holds.empty (holds : Holds base list objects cells) : linkedListEmpty list = .ok cells.isEmpty := by
  rw [holds.list.represents.empty, List.isEmpty_map]

theorem Holds.next (holds : Holds base list objects (left ++ cell :: right)) :
    linkedListNext list (some cell.addr) = .ok (right.head?.map Cell.addr) := by
  have next := holds.listAt.represents.next
  rwa [List.head?_map, Option.map_map] at next

theorem Holds.prev (holds : Holds base list objects (left ++ cell :: right)) :
    linkedListPrev list (some cell.addr) = .ok (left.getLast?.map Cell.addr) := by
  have prev := holds.listAt.represents.prev
  rwa [List.getLast?_map, Option.map_map] at prev

end Readers

/-- What `malloc` returns is not in use: for the element memory, for the object
memory or null. -/
structure ObjectAllocation.Fresh {Addr Value : Type} (allocation : ObjectAllocation Addr)
    (list : LinkedList Addr Addr)
    (objects : ObjectHeap Addr Value) : Prop where
  elem : ∃ addr junk, allocation.elem = some (addr, junk) ∧ list.heap addr = none
  obj : ∀ addr ∈ allocation.obj, objects addr = none

theorem ObjectAllocation.fresh_some {Addr Value : Type} {list : LinkedList Addr Addr}
    {objects : ObjectHeap Addr Value}
    {obj elem : Addr} {junk : LinkedListElem Addr Addr} (free : list.heap elem = none)
    (freeObj : objects obj = none) :
    ObjectAllocation.Fresh ⟨some obj, some (elem, junk)⟩ list objects :=
  ⟨⟨elem, junk, rfl, free⟩, fun addr member => by
    obtain rfl := Option.some.inj member
    exact freeObj⟩

/-- The cell that an allocation makes for a new object. -/
def ObjectAllocation.cell {Addr Value : Type} (allocation : ObjectAllocation Addr) (addr : Addr) (value : Value) :
    Cell Addr Value :=
  ⟨addr, allocation.obj.map fun obj => (obj, value)⟩

section Updates

variable {Addr Value : Type} [DecidableEq Addr] {base : Memory Addr Value} {list : LinkedList Addr Addr}
  {objects : ObjectHeap Addr Value} {cells left right : List (Cell Addr Value)} {cell : Cell Addr Value}
  {addr obj : Addr} {value : Value} {allocation : ObjectAllocation Addr}

theorem Holds.store (holds : Holds base list objects (left ++ ⟨addr, some (obj, value)⟩ :: right))
    (write : Value → Value) :
    ∃ objects', objects.store (some obj) write = .ok objects' ∧
      Holds base list objects' (left ++ ⟨addr, some (obj, write value)⟩ :: right) := by
  refine ⟨Function.update objects obj (some (write value)), ?_, ?_, ?_⟩
  · rw [ObjectHeap.store, holds.load]
    rfl
  · have list := holds.list
    rw [List.map_append, List.map_cons] at list ⊢
    exact list
  · rw [Cell.objects_some]
    exact holds.objectsAt.update (write value)

/-- The object goes with its element; a null pointer is freed, too. -/
theorem Holds.drop (holds : Holds base list objects (left ++ cell :: right)) :
    ∃ list' objects', linkedListUnlink list (some cell.addr) = .ok list' ∧ objects.free cell.obj = .ok objects' ∧
      Holds base list' objects' (left ++ right) := by
  obtain ⟨list', unlinked, _, owns⟩ := holds.listAt.unlink
  have unlinked : linkedListUnlink list (some cell.addr) = .ok list' := unlinked
  rw [← List.map_append] at owns
  rcases cell with ⟨addr, _ | ⟨obj, value⟩⟩
  · refine ⟨list', objects, unlinked, rfl, owns, ?_⟩
    rw [← Cell.objects_none]
    exact holds.objects
  · refine ⟨list', Function.update objects obj none, unlinked, ?_, owns, ?_⟩
    · rw [Cell.obj_some, ObjectHeap.free, holds.load]
      rfl
    · rw [List.filterMap_append]
      exact holds.objectsAt.remove

theorem ObjectAllocation.malloc_obj (allocation : ObjectAllocation Addr) (objects : ObjectHeap Addr Value)
    (value : Value)
    (addr : Addr) : (objects.malloc allocation.obj value).1 = (allocation.cell addr value).obj := by
  rcases allocation with ⟨_ | obj, elem⟩ <;> rfl

theorem Holds.malloc (holds : Holds base list objects (left ++ right)) (fresh : allocation.Fresh list objects)
    (addr : Addr) (value : Value) :
    Stores base.objects (objects.malloc allocation.obj value).2
      ((left ++ allocation.cell addr value :: right).filterMap Cell.object) := by
  have objects := holds.objects
  rcases allocation with ⟨_ | obj, elem⟩
  · exact (Cell.objects_none left right addr).symm ▸ objects
  · rw [List.filterMap_append] at objects
    exact (Cell.objects_some left right addr _).symm ▸ objects.insert (fresh.obj obj rfl) value

theorem Holds.append (holds : Holds base list objects cells) (fresh : allocation.Fresh list objects)
    (value : Value) :
    ∃ list' addr, linkedListAppend list (objects.malloc allocation.obj value).1 allocation.elem = .ok (true, list') ∧
      Holds base list' (objects.malloc allocation.obj value).2 (cells ++ [allocation.cell addr value]) := by
  obtain ⟨addr, junk, allocated, free⟩ := fresh.elem
  obtain ⟨list', appended, _, owns⟩ := holds.list.append free (allocation.cell addr value).obj junk
  refine ⟨list', addr, ?_, ?_, ?_⟩
  · rw [allocated, allocation.malloc_obj objects value addr, appended]
  · rw [List.map_append]
    exact owns
  · have holds : Holds base list objects (cells ++ []) := by rwa [List.append_nil]
    exact holds.malloc fresh addr value

theorem Holds.insertBefore (holds : Holds base list objects (left ++ cell :: right))
    (fresh : allocation.Fresh list objects) (value : Value) :
    ∃ list' addr, linkedListInsertBefore list (objects.malloc allocation.obj value).1 (some cell.addr)
        allocation.elem = .ok (true, list') ∧
      Holds base list' (objects.malloc allocation.obj value).2
        (left ++ allocation.cell addr value :: cell :: right) := by
  obtain ⟨addr, junk, allocated, free⟩ := fresh.elem
  obtain ⟨list', inserted, _, owns⟩ := holds.listAt.insertBefore free (allocation.cell addr value).obj junk
  refine ⟨list', addr, ?_, ?_, holds.malloc fresh addr value⟩
  · rw [allocated, allocation.malloc_obj objects value addr]
    exact inserted
  · rw [List.map_append, List.map_cons, List.map_cons]
    exact owns

/-- A merge with the next object: it is dropped once the object of the element is
written. -/
theorem Holds.mergeNext {next : Cell Addr Value}
    (holds : Holds base list objects (left ++ ⟨addr, some (obj, value)⟩ :: next :: right)) (write : Value → Value) :
    ∃ objects', objects.store (some obj) write = .ok objects' ∧ ∃ list' objects'',
      linkedListUnlink list (some next.addr) = .ok list' ∧ objects'.free next.obj = .ok objects'' ∧
      Holds base list' objects'' (left ++ ⟨addr, some (obj, write value)⟩ :: right) := by
  obtain ⟨objects', stored, holds⟩ := holds.store write
  obtain ⟨list', objects'', unlinked, freed, holds⟩ := holds.onward.drop
  rw [List.append_assoc, List.singleton_append] at holds
  exact ⟨objects', stored, list', objects'', unlinked, freed, holds⟩

theorem Holds.mergePrev {prev : Cell Addr Value}
    (holds : Holds base list objects ((left ++ [prev]) ++ ⟨addr, some (obj, value)⟩ :: right))
    (write : Value → Value) :
    ∃ objects', objects.store (some obj) write = .ok objects' ∧ ∃ list' objects'',
      linkedListUnlink list (some prev.addr) = .ok list' ∧ objects'.free prev.obj = .ok objects'' ∧
      Holds base list' objects'' (left ++ ⟨addr, some (obj, write value)⟩ :: right) := by
  obtain ⟨objects', stored, holds⟩ := holds.store write
  rw [List.append_assoc, List.singleton_append] at holds
  obtain ⟨list', objects'', unlinked, freed, holds⟩ := holds.drop
  exact ⟨objects', stored, list', objects'', unlinked, freed, holds⟩

end Updates

end UCP
