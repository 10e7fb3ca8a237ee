import UCP.PointerServer
import UCP.SequencerMemory

namespace UCP

section Recount

variable {Addr Obj : Type}

/-- The list with its members counted right. -/
def LinkedList.recount (list : LinkedList Addr Obj) (n : Nat) : LinkedList Addr Obj :=
  { list with numMembers := Int32.ofNat n }

theorem LinkedList.recount_eq {list list' : LinkedList Addr Obj} {elems : List (Addr × Option Obj)}
    (rep : Represents list' elems) (anchor : list.anchor = list'.anchor) (heap : list.heap = list'.heap) :
    list.recount elems.length = list' := by
  obtain ⟨_, _, _⟩ := list
  obtain ⟨_, _, _⟩ := list'
  have count := rep.numMembers
  cases anchor
  cases heap
  cases count
  rfl

variable [DecidableEq Addr]

/-- The count of the members is kept and not used. -/
theorem linkedListAppend_count (list : LinkedList Addr Obj) (m : Int32) (obj : Option Obj)
    (allocation : Allocation Addr Obj) :
    linkedListAppend { list with numMembers := m } obj allocation =
      (fun result => (result.1, { result.2 with numMembers := m + 1 })) <$> linkedListAppend list obj allocation := by
  simp only [linkedListAppend, linkedListEmpty]
  generalize list.heap.malloc allocation = allocated
  simp only [map_bind, apply_ite, map_pure]

theorem linkedListUnlink_count (list : LinkedList Addr Obj) (m : Int32) (elem : Option Addr) :
    ∃ k, linkedListUnlink { list with numMembers := m } elem =
      (fun result => { result with numMembers := k }) <$> linkedListUnlink list elem := by
  have same : linkedListEmpty { list with numMembers := m } = linkedListEmpty list := rfl
  rw [linkedListUnlink, linkedListUnlink, same]
  rcases linkedListEmpty list with fault | _ | _
  · exact ⟨m, rfl⟩
  · refine ⟨m - 1, ?_⟩
    simp only [Except.ok_bind, Bool.false_eq_true, if_false, map_bind, map_pure]
  · exact ⟨m, rfl⟩

theorem linkedListAppend_uncounted {list list' : LinkedList Addr Obj} {elems : List (Addr × Option Obj)} {n : Nat}
    {obj : Option Obj} {allocation : Allocation Addr Obj} {result : Bool}
    (appended : linkedListAppend (list.recount n) obj allocation = .ok (result, list'))
    (rep : Represents list' elems) :
    ∃ list'', linkedListAppend list obj allocation = .ok (result, list'') ∧ list''.recount elems.length = list' := by
  rw [LinkedList.recount, linkedListAppend_count] at appended
  generalize linkedListAppend list obj allocation = ran at appended
  rcases ran with fault | ⟨result, list''⟩
  · cases appended
  · obtain ⟨rfl, rfl⟩ := Prod.mk.inj (Except.ok.inj appended)
    exact ⟨list'', rfl, LinkedList.recount_eq rep rfl rfl⟩

theorem linkedListUnlink_uncounted {list list' : LinkedList Addr Obj} {elems : List (Addr × Option Obj)} {n : Nat}
    {elem : Option Addr} (unlinked : linkedListUnlink (list.recount n) elem = .ok list')
    (rep : Represents list' elems) :
    ∃ list'', linkedListUnlink list elem = .ok list'' ∧ list''.recount elems.length = list' := by
  obtain ⟨k, counted⟩ := linkedListUnlink_count list (Int32.ofNat n) elem
  rw [LinkedList.recount, counted] at unlinked
  generalize linkedListUnlink list elem = ran at unlinked
  rcases ran with fault | list''
  · cases unlinked
  · obtain rfl := Except.ok.inj unlinked
    exact ⟨list'', rfl, LinkedList.recount_eq rep rfl rfl⟩

end Recount

end UCP

namespace UCP.Pointer

/-- The queue in memory holds these items, whatever it counts. -/
structure QueueHolds {Addr : Type} (base : Heap Addr Addr) (baseItems : ObjectHeap Addr SequencingQueueItem)
    (queue : LinkedList Addr Addr) (items : ObjectHeap Addr SequencingQueueItem)
    (slots : List (Slot Addr SequencingQueueItem)) : Prop where
  list : Owns base (queue.recount slots.length) (slots.map Slot.elem)
  stores : Stores baseItems items (slots.map Slot.object)

section Queue

variable {Addr : Type} [DecidableEq Addr] {base : Heap Addr Addr}
  {baseItems items : ObjectHeap Addr SequencingQueueItem}
  {queue : LinkedList Addr Addr} {slots : List (Slot Addr SequencingQueueItem)}
  {slot : Slot Addr SequencingQueueItem}
  {allocation : ObjectAllocation Addr}

theorem QueueHolds.push (holds : QueueHolds base baseItems queue items slots) (fresh : allocation.Fresh queue items)
    (allocated : allocation.obj ≠ none) (seqNo flag : UInt32) (isLast : Bool) :
    ∃ queue' items' slot, sequencingQueuePush queue items seqNo flag isLast allocation = .ok (queue', items') ∧
      QueueHolds base baseItems queue' items' (slots ++ [slot]) ∧ slot.value = ⟨seqNo, flag, isLast⟩ := by
  obtain ⟨_ | obj, elem⟩ := allocation
  · exact absurd rfl allocated
  obtain ⟨addr, junk, rfl, free⟩ := fresh.elem
  obtain ⟨list, appended, _, owns⟩ := holds.list.append free (some obj) junk
  obtain ⟨queue', pushed, counted⟩ := linkedListAppend_uncounted appended owns.represents
  refine ⟨queue', Function.update items obj (some ⟨seqNo, flag, isLast⟩),
    ⟨addr, obj, seqNo, flag, isLast⟩, ?_, ⟨?_, ?_⟩, rfl⟩
  · simp only [sequencingQueuePush, ObjectHeap.malloc, Option.some_ne_none, if_false, pushed]
    rfl
  · rw [List.length_append, List.length_map, List.length_singleton] at counted
    rw [List.length_append, List.length_singleton, counted, List.map_append]
    exact owns
  · have stores : Stores baseItems items (slots.map Slot.object ++ []) := by
      rw [List.append_nil]
      exact holds.stores
    rw [List.map_append]
    exact stores.insert (fresh.obj obj rfl) _

theorem QueueHolds.pop_nil (holds : QueueHolds base baseItems queue items []) :
    sequencingQueuePop queue items = .ok (none, queue, items) := by
  have first : linkedListFirst queue = .ok none := holds.list.represents.first
  rw [sequencingQueuePop, first]
  rfl

theorem QueueHolds.pop_cons (holds : QueueHolds base baseItems queue items (slot :: slots)) :
    ∃ queue' items', sequencingQueuePop queue items = .ok (some slot.value, queue', items') ∧
      QueueHolds base baseItems queue' items' slots := by
  have owns : Owns base (queue.recount (slot :: slots).length) ([] ++ slot.elem :: slots.map Slot.elem) :=
    holds.list
  have stores : Stores baseItems items ([] ++ (slot.object.1, slot.value) :: slots.map Slot.object) := holds.stores
  have first : linkedListFirst queue = .ok (some slot.addr) := owns.represents.first
  have obj : queue.obj (some slot.addr) = .ok (some slot.object.1) := owns.represents.objAt
  have load : items.load (some slot.object.1) = .ok slot.value := ObjectHeap.load_some stores.load
  obtain ⟨list, unlinked, _, rest⟩ := owns.unlink
  have unlinked : linkedListUnlink (queue.recount (slot :: slots).length) (some slot.addr) = .ok list := unlinked
  obtain ⟨queue', popped, counted⟩ := linkedListUnlink_uncounted unlinked rest.represents
  refine ⟨queue', Function.update items slot.object.1 none, ?_, ?_, stores.remove⟩
  · rw [sequencingQueuePop, first, Except.ok_bind]
    simp only [obj, Except.ok_bind, load, popped, ObjectHeap.free]
    rfl
  · rw [List.nil_append, List.length_map] at counted
    rw [counted]
    exact rest

/-- What comes out of the queue is what lies in front. -/
theorem QueueHolds.pop_value (holds : QueueHolds base baseItems queue items slots) :
    Except.map (·.1) (sequencingQueuePop queue items) = .ok (slots.head?.map Slot.value) := by
  cases slots with
  | nil => exact congrArg (Except.map (·.1)) holds.pop_nil
  | cons slot slots =>
    obtain ⟨_, _, popped, _⟩ := holds.pop_cons
    exact congrArg (Except.map (·.1)) popped

end Queue

/-- What the process in memory means. -/
def ServerProcess.erase {Addr : Type} (p : ServerProcess Addr) (slots : List (Slot Addr SequencingQueueItem))
    (ranges : UCP.Sequencer) : ServerState where
  receiving := p.receiving
  handle := p.handle
  seqQueue := slots.map Slot.value
  sequencing := ⟨ranges, p.seqNo, p.flag, p.isLast, p.pc⟩

/-- In this part of the memory is the sequencer with its ranges, or nothing any
more once it is destroyed. -/
def SequencerHeld {Addr : Type} (base : Memory Addr SequencerItem) (p : ServerProcess Addr) (heap : Heap Addr Addr)
    (ranges : UCP.Sequencer) : Prop :=
  (p.destroyed = false ∧ Refines base (p.sequencer.at heap p.ranges) ranges.nullable ∧ ranges.seq.length < 2 ^ 31) ∨
    (p.destroyed = true ∧ p.pc = .returned ∧ heap = base.heap ∧ p.ranges = base.objects)

/-- The process in memory means this state of the two threads. The queue lies in
memory beside the sequencer. -/
def ProcessMirrors {Addr : Type} (base : Memory Addr SequencerItem)
    (baseItems : ObjectHeap Addr SequencingQueueItem)
    (p : ServerProcess Addr) (s : ServerState) : Prop :=
  ∃ slots ranges mid, QueueHolds mid baseItems p.queue p.items slots ∧ SequencerHeld base p mid ranges ∧
    s = p.erase slots ranges

section Process

variable {Addr : Type} {base : Memory Addr SequencerItem} {baseItems items : ObjectHeap Addr SequencingQueueItem}
  {p p' : ServerProcess Addr} {s : ServerState} {slots : List (Slot Addr SequencingQueueItem)}
  {ranges : UCP.Sequencer}
  {mid heap : Heap Addr Addr} {queue : ListHead Addr} {sequencer : SequencerHead Addr}
  {objects : ObjectHeap Addr SequencerItem} {state : Nullable.Sequencer} {fuel : Nat}
  {allocation : ObjectAllocation Addr}

theorem SequencerHeld.alive (held : SequencerHeld base p mid ranges)
    (runs : p.pc ≠ .returned ∨ p.destroyed = false) :
    p.destroyed = false ∧ Refines base (p.sequencer.at mid p.ranges) ranges.nullable ∧ ranges.seq.length < 2 ^ 31 := by
  rcases held with alive | ⟨destroyed, returned, _⟩
  · exact alive
  · rcases runs with running | present
    · exact absurd returned running
    · cases destroyed.symm.trans present

theorem ServerProcess.Room.enough (room : p.Room fuel) (refines : Refines ⟨mid, objects⟩ p.seq ranges.nullable)
    (bounded : ranges.seq.length < 2 ^ 31) : ranges.seq.length + 1 ≤ fuel ∧ ranges.seq.length + 1 < 2 ^ 31 := by
  have length : ranges.nullable.seq.length = ranges.seq.length := List.length_map _
  have count := refines.count (by rwa [length])
  rw [length] at count
  obtain ⟨below, enough⟩ := room
  omega

variable [DecidableEq Addr]

/-- The sequencer can be taken to lie above the queue as well. -/
theorem QueueHolds.under (holds : QueueHolds mid baseItems (queue.at heap) items slots)
    (refines : Refines base (sequencer.at mid objects) state) :
    ∃ mid', QueueHolds base.heap baseItems (queue.at mid') items slots ∧
      Refines ⟨mid', base.objects⟩ (sequencer.at heap objects) state := by
  obtain ⟨cells, ⟨list, stores⟩, rfl⟩ := refines
  have beside : Beside base.heap heap ((queue.at heap).recount slots.length).head (slots.map Slot.elem) sequencer.seq
      (cells.map Cell.elem) := ⟨mid, list, holds.list⟩
  obtain ⟨mid', below, above⟩ := beside.symm
  exact ⟨mid', ⟨below, holds.stores⟩, cells, ⟨above, stores⟩, rfl⟩

theorem QueueHolds.onto (holds : QueueHolds base.heap baseItems (queue.at mid) items slots)
    (refines : Refines ⟨mid, base.objects⟩ (sequencer.at heap objects) state) :
    ∃ mid', QueueHolds mid' baseItems (queue.at heap) items slots ∧
      Refines base (sequencer.at mid' objects) state := by
  obtain ⟨cells, ⟨list, stores⟩, rfl⟩ := refines
  have beside : Beside base.heap heap sequencer.seq (cells.map Cell.elem) ((queue.at mid).recount slots.length).head
      (slots.map Slot.elem) := ⟨mid, holds.list, list⟩
  obtain ⟨mid', below, above⟩ := beside.symm
  exact ⟨mid', ⟨above, holds.stores⟩, cells, ⟨below, stores⟩, rfl⟩

/-- With the sequencer on top its calls are those on the list of its ranges. -/
theorem SequencerHeld.onTop (held : SequencerHeld base p mid ranges) (runs : p.pc ≠ .returned ∨ p.destroyed = false)
    (holds : QueueHolds mid baseItems p.queue p.items slots) :
    ∃ mid', QueueHolds base.heap baseItems (p.seqQueue.at mid') p.items slots ∧
      Refines ⟨mid', base.objects⟩ p.seq ranges.nullable ∧ ranges.seq.length < 2 ^ 31 := by
  obtain ⟨_, refines, bounded⟩ := held.alive runs
  obtain ⟨mid', under, top⟩ := holds.under refines
  exact ⟨mid', under, top, bounded⟩

/-- After a call the sequencer lies below the queue again. -/
theorem QueueHolds.mirrors {seq : Sequencer Addr} {pc : SequencingPc} {old : UCP.Sequencer}
    (holds : QueueHolds base.heap baseItems (p.seqQueue.at mid) p.items slots)
    (refines : Refines ⟨mid, base.objects⟩ seq ranges.nullable) (bounded : ranges.seq.length < 2 ^ 31)
    (alive : p.destroyed = false) :
    ProcessMirrors base baseItems { p.setSeq seq with pc } { p.erase slots old with
      sequencing := ⟨ranges, p.seqNo, p.flag, p.isLast, pc⟩ } := by
  have refines : Refines ⟨mid, base.objects⟩ (seq.head.at seq.seq.heap seq.items) ranges.nullable := refines
  obtain ⟨mid', above, below⟩ := holds.onto refines
  exact ⟨slots, ranges, mid', above, Or.inl ⟨alive, below, bounded⟩, rfl⟩

theorem ProcessMirrors.push (mirrors : ProcessMirrors base baseItems p s) (fresh : allocation.Fresh p.queue p.items)
    (allocated : allocation.obj ≠ none) (item : SequencingQueueItem) :
    ∃ p', receivingThreadPush item p allocation = .ok p' ∧
      ProcessMirrors base baseItems p' { s with
        receiving := (UCP.receivingThreadPush item s.receiving s.seqQueue).1
        seqQueue := (UCP.receivingThreadPush item s.receiving s.seqQueue).2 } := by
  obtain ⟨slots, ranges, mid, holds, held, rfl⟩ := mirrors
  obtain ⟨queue, items, slot, pushed, holds', value⟩ := holds.push fresh allocated item.seqNo item.flag item.isLast
  refine ⟨{ p.setQueue queue items with
    receiving := { p.receiving with pc := if item.flag = ucpFlagNack then .returned else .receive } }, ?_,
    slots ++ [slot], ranges, mid, holds', held, ?_⟩
  · rw [receivingThreadPush, pushed]
    rfl
  · simp [ServerProcess.erase, ServerProcess.setQueue, UCP.receivingThreadPush, UCP.sequencingQueuePush, value]

/-- A step of `sequencing_thread` in memory is the step on what the memory means. -/
theorem ProcessMirrors.sequence (mirrors : ProcessMirrors base baseItems p s) (room : p.Room fuel)
    (fresh : allocation.Fresh p.seq.seq p.ranges) (allocated : allocation.obj ≠ none) :
    (sequencingThreadStep fuel p allocation = .ok none ∧ UCP.sequencingThreadStep s.sequencing s.seqQueue = none) ∨
    ∃ p' thread seqQueue sent, sequencingThreadStep fuel p allocation = .ok (some (p', sent)) ∧
      UCP.sequencingThreadStep s.sequencing s.seqQueue = some (thread, seqQueue, sent) ∧
      ProcessMirrors base baseItems p' { s with sequencing := thread, seqQueue } := by
  obtain ⟨slots, ranges, mid, holds, held, rfl⟩ := mirrors
  cases atPc : p.pc with
  | test =>
    have runs : p.pc ≠ .returned ∨ p.destroyed = false := Or.inl (by rw [atPc]; exact SequencingPc.noConfusion)
    obtain ⟨mid', under, refines, bounded⟩ := held.onTop runs holds
    obtain ⟨enough, below⟩ := room.enough refines bounded
    obtain ⟨seq, ran, refines', longer⟩ := refines.completeRanges (Nat.le_of_succ_le enough) bounded
    have bounded' := longer.trans_lt below
    refine Or.inr ⟨{ p.setSeq seq with pc := if (UCP.sequencerComplete ranges).1 then .fin else .pop }, _, _, none, ?_,
      ?_, under.mirrors refines' bounded' (held.alive runs).1⟩
    · rw [sequencingThreadStep, atPc]
      dsimp only
      rw [ran]
      rfl
    · simp only [UCP.sequencingThreadStep, ServerProcess.erase, atPc]
  | pop =>
    have runs : p.pc ≠ .returned ∨ p.destroyed = false := Or.inl (by rw [atPc]; exact SequencingPc.noConfusion)
    have alive := held.alive runs
    cases slots with
    | nil =>
      refine Or.inr ⟨{ p.setQueue p.queue p.items with pc := .test }, _, _, none, ?_, ?_, [], ranges, mid, holds,
        Or.inl alive, rfl⟩
      · rw [sequencingThreadStep, atPc]
        dsimp only
        rw [holds.pop_nil]
        rfl
      · simp only [UCP.sequencingThreadStep, ServerProcess.erase, atPc, List.map_nil, UCP.sequencingQueuePop]
        rfl
    | cons slot slots =>
      obtain ⟨queue, items, popped, holds'⟩ := holds.pop_cons
      refine Or.inr ⟨{ p.setQueue queue items with
          seqNo := slot.value.seqNo, flag := slot.value.flag, isLast := slot.value.isLast, pc := .reply },
        _, _, none, ?_, ?_, slots, ranges, mid, holds', Or.inl alive, rfl⟩
      · rw [sequencingThreadStep, atPc]
        dsimp only
        rw [popped]
        rfl
      · simp only [UCP.sequencingThreadStep, ServerProcess.erase, atPc, List.map_cons, UCP.sequencingQueuePop]
  | reply =>
    have runs : p.pc ≠ .returned ∨ p.destroyed = false := Or.inl (by rw [atPc]; exact SequencingPc.noConfusion)
    refine Or.inr ⟨{ p with pc := .add }, _, _, some (p.seqNo, p.flag), ?_, ?_, slots, ranges, mid, holds,
      Or.inl (held.alive runs), rfl⟩
    · rw [sequencingThreadStep, atPc]
      rfl
    · simp only [UCP.sequencingThreadStep, ServerProcess.erase, atPc]
  | add =>
    have runs : p.pc ≠ .returned ∨ p.destroyed = false := Or.inl (by rw [atPc]; exact SequencingPc.noConfusion)
    obtain ⟨mid', under, refines, bounded⟩ := held.onTop runs holds
    obtain ⟨enough, below⟩ := room.enough refines bounded
    obtain ⟨seq, ran, refines', longer⟩ :=
      refines.addRanges (Nat.le_of_succ_le enough) fresh allocated p.seqNo (p.flag == ucpFlagDataEnd)
    have bounded' := longer.trans_lt below
    have missing := refines'.missing (longer.trans enough)
    refine Or.inr ⟨{ p.setSeq seq with pc := .missing (UCP.sequencerIterateMissingSegments
        (UCP.sequencerAdd ranges p.seqNo (p.flag == ucpFlagDataEnd)).2) }, _, _, none, ?_, ?_,
      under.mirrors refines' bounded' (held.alive runs).1⟩
    · rw [sequencingThreadStep, atPc]
      dsimp only
      rw [ran, Except.ok_bind]
      dsimp only
      rw [missing]
      rfl
    · simp only [UCP.sequencingThreadStep, ServerProcess.erase, atPc]
  | missing todo =>
    have runs : p.pc ≠ .returned ∨ p.destroyed = false := Or.inl (by rw [atPc]; exact SequencingPc.noConfusion)
    cases todo with
    | nil =>
      refine Or.inr ⟨{ p with pc := .test }, _, _, none, ?_, ?_, slots, ranges, mid, holds,
        Or.inl (held.alive runs), rfl⟩
      · rw [sequencingThreadStep, atPc]
        rfl
      · simp only [UCP.sequencingThreadStep, ServerProcess.erase, atPc]
    | cons seqNo todo =>
      refine Or.inr ⟨{ p with pc := .missing todo }, _, _, some (seqNo, ucpFlagNack), ?_, ?_, slots, ranges, mid, holds,
        Or.inl (held.alive runs), rfl⟩
      · rw [sequencingThreadStep, atPc]
        rfl
      · simp only [UCP.sequencingThreadStep, ServerProcess.erase, atPc]
  | fin =>
    have runs : p.pc ≠ .returned ∨ p.destroyed = false := Or.inl (by rw [atPc]; exact SequencingPc.noConfusion)
    have alive := held.alive runs
    have last : ranges.expectedLastSeqNo = p.sequencer.expectedLastSeqNo := by
      obtain ⟨cells, _, same⟩ := alive.2.1
      exact congrArg Nullable.Sequencer.expectedLastSeqNo same
    refine Or.inr ⟨{ p with pc := .returned }, _, _, some (p.sequencer.expectedLastSeqNo, ucpFlagFin), ?_, ?_,
      slots, ranges, mid, holds, Or.inl alive, rfl⟩
    · rw [sequencingThreadStep, atPc]
      rfl
    · simp only [UCP.sequencingThreadStep, ServerProcess.erase, atPc, last]
  | returned =>
    refine Or.inl ⟨?_, ?_⟩
    · rw [sequencingThreadStep, atPc]
      rfl
    · simp only [UCP.sequencingThreadStep, ServerProcess.erase, atPc]

/-- At the start the queue is empty, and the sequencer has no ranges. -/
theorem serverProcessStart_mirrors {queueAddr seqAddr : Addr} (free : base.heap queueAddr = none)
    (freeSeq : base.heap seqAddr = none) (apart : seqAddr ≠ queueAddr) (handle : FileIoPartitionHandle)
    (numMembers : Int32) (junk : LinkedListElem Addr Addr) :
    ∃ p, serverProcessStart base baseItems handle numMembers queueAddr junk (some seqAddr) = .ok (some p) ∧
      ProcessMirrors base baseItems p (serverStart handle) := by
  obtain ⟨heap, set, owns⟩ : ∃ heap, heap = base.heap.set queueAddr (some ⟨none, some queueAddr, some queueAddr⟩) ∧
      Owns base.heap ⟨0, queueAddr, heap⟩ [] := ⟨_, rfl, .linked free⟩
  have freeSeq : heap seqAddr = none := by
    rw [set, Heap.set_of_ne _ apart]
    exact freeSeq
  obtain ⟨seq, init, refines⟩ : ∃ seq, sequencerInit ⟨heap, base.objects⟩ (some seqAddr) = .ok (some seq) ∧
      Refines ⟨heap, base.objects⟩ (seq.head.at seq.seq.heap seq.items) Nullable.sequencerInit :=
    sequencerInit_refines freeSeq
  have under : QueueHolds base.heap baseItems ((⟨numMembers, queueAddr⟩ : ListHead Addr).at heap) baseItems [] :=
    ⟨owns, .refl baseItems⟩
  obtain ⟨mid, above, below⟩ := under.onto refines
  refine ⟨{ receiving := receivingThreadStart, handle, seqQueue := ⟨numMembers, queueAddr⟩, sequencer := seq.head,
            seqNo := 0, flag := 0, isLast := false, pc := .test, destroyed := false, heap := seq.seq.heap,
            items := baseItems, ranges := seq.items },
    ?_, [], UCP.sequencerInit, mid, above, Or.inl ⟨rfl, below, Nat.two_pow_pos 31⟩, rfl⟩
  rw [serverProcessStart, linkedListInit_eq, Except.ok_bind]
  dsimp only
  rw [← set, init]
  rfl

theorem ProcessMirrors.destroy (mirrors : ProcessMirrors base baseItems p s) (room : p.Room fuel)
    (returned : p.pc = .returned) (alive : p.destroyed = false) :
    ∃ p', sequencingThreadDestroy fuel p = .ok p' ∧ ProcessMirrors base baseItems p' s := by
  obtain ⟨slots, ranges, mid, holds, held, rfl⟩ := mirrors
  obtain ⟨mid', under, refines, bounded⟩ := held.onTop (Or.inr alive) holds
  obtain ⟨enough, _⟩ := room.enough refines bounded
  have length : ranges.nullable.seq.length = ranges.seq.length := List.length_map _
  rw [← length] at enough
  have destroyed : sequencerDestroy fuel p.seq = .ok ⟨mid', base.objects⟩ :=
    refines.destroy (Nat.le_of_succ_le enough)
  refine ⟨{ p with heap := mid', ranges := base.objects, destroyed := true }, ?_, slots, ranges, base.heap, under,
    Or.inr ⟨rfl, returned, rfl, rfl⟩, rfl⟩
  rw [sequencingThreadDestroy, destroyed]
  rfl

/-- Every step of the process in memory is a step of the two threads on what the
memory means; the end of the sequencer means nothing to them. -/
theorem ProcessMirrors.step {arrives : List UInt8 → Prop} {e : ServerEvent}
    (mirrors : ProcessMirrors base baseItems p s) (step : ProcessStep arrives p e p') :
    ∃ s', ProcessMirrors base baseItems p' s' ∧ (ServerStep arrives s e s' ∨ e = .silent ∧ s' = s) := by
  cases step with
  | save arrived waiting received pushing =>
    obtain ⟨slots, ranges, mid, holds, held, rfl⟩ := mirrors
    exact ⟨_, ⟨slots, ranges, mid, holds, held, rfl⟩, Or.inl (.save arrived waiting received pushing)⟩
  | ignore arrived waiting received other =>
    obtain ⟨slots, ranges, mid, holds, held, rfl⟩ := mirrors
    exact ⟨_, ⟨slots, ranges, mid, holds, held, rfl⟩, Or.inl (.ignore arrived waiting received other)⟩
  | receiveError waiting =>
    obtain ⟨slots, ranges, mid, holds, held, rfl⟩ := mirrors
    exact ⟨_, ⟨slots, ranges, mid, holds, held, rfl⟩, Or.inl (.receiveError waiting)⟩
  | @push item _ allocation pushing fresh allocated pushed =>
    obtain ⟨p'', pushed', mirrors'⟩ := mirrors.push fresh allocated item
    obtain rfl := Except.ok.inj (pushed'.symm.trans pushed)
    obtain ⟨slots, ranges, mid, holds, held, rfl⟩ := mirrors
    exact ⟨_, mirrors', Or.inl (.push pushing rfl)⟩
  | @sequence fuel _ sent allocation room fresh allocated ran =>
    rcases mirrors.sequence room fresh allocated with ⟨nothing, _⟩ | ⟨p'', thread, seqQueue, sent', ran', taken, mirrors'⟩
    · cases nothing.symm.trans ran
    · obtain ⟨rfl, rfl⟩ := Prod.mk.inj (Option.some.inj (Except.ok.inj (ran'.symm.trans ran)))
      exact ⟨_, mirrors', Or.inl (.sequence taken)⟩
  | cancel returned =>
    obtain ⟨slots, ranges, mid, holds, held, rfl⟩ := mirrors
    exact ⟨_, ⟨slots, ranges, mid, holds, held, rfl⟩, Or.inl (.cancel returned)⟩
  | @destroy fuel _ room returned alive ended =>
    obtain ⟨p'', ended', mirrors'⟩ := mirrors.destroy room returned alive
    obtain rfl := Except.ok.inj (ended'.symm.trans ended)
    exact ⟨s, mirrors', Or.inr ⟨rfl, rfl⟩⟩

end Process

end UCP.Pointer
