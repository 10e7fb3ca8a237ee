import Mathlib.Data.List.Perm.Subperm
import UCP.PointerClient

namespace UCP.Pointer

/-- The two windows lie side by side in memory with these elements. The packets
they point to, and those in hand, are among the ones that have been made, and
every one of them is in one place. -/
structure WindowsHold {Addr : Type} (base : Memory Addr UcpPacket) (w : ClientWindows Addr)
    (pending inFlight : List (Slot Addr UcpPacket)) (hand made : List (Addr × UcpPacket)) : Prop where
  beside : Beside base.heap w.heap w.pendingPacketList (pending.map Slot.elem) w.inFlightPacketList
    (inFlight.map Slot.elem)
  stores : Stores base.objects w.packets made
  placed : ((pending ++ inFlight).map Slot.object ++ hand).Subperm made

/-- What the windows in memory mean. -/
def ClientWindows.erase {Addr : Type} (w : ClientWindows Addr) (pending inFlight : List (Slot Addr UcpPacket)) :
    UCP.ClientWindows where
  pendingPacketList := pending.map Slot.value
  inFlightPacketList := inFlight.map Slot.value
  done := w.done

/-- The windows in memory mean these windows, with these packets in hand. -/
def Mirrors {Addr : Type} (base : Memory Addr UcpPacket) (w : ClientWindows Addr) (windows : UCP.ClientWindows)
    (hand made : List (Addr × UcpPacket)) : Prop :=
  ∃ pending inFlight, WindowsHold base w pending inFlight hand made ∧ windows = w.erase pending inFlight

theorem ofHeap_ok {Addr α : Type} (a : α) : (ofHeap (.ok a) : Except (ClientFault Addr) α) = .ok a := rfl

theorem ofMem_ok {Addr α : Type} (a : α) : (ofMem (.ok a) : Except (ClientFault Addr) α) = .ok a := rfl

section TakeFirst

variable {Addr : Type} [DecidableEq Addr] {base : Heap Addr Addr} {list : LinkedList Addr Addr}

theorem takeFirst_nil (owns : Owns base list []) : takeFirst list = .ok none := by
  rw [takeFirst, owns.represents.empty]
  rfl

theorem takeFirst_cons {elem : Addr × Option Addr} {elems : List (Addr × Option Addr)}
    (owns : Owns base list (elem :: elems)) :
    ∃ list', takeFirst list = .ok (some (elem.2, list')) ∧ list'.anchor = list.anchor ∧ Owns base list' elems := by
  have owns : Owns base list ([] ++ elem :: elems) := owns
  obtain ⟨list', unlinked, anchor, rest⟩ := owns.unlink
  have first : linkedListFirst list = .ok (some elem.1) := owns.represents.first
  have empty : linkedListEmpty list = .ok false := owns.represents.empty
  refine ⟨list', ?_, anchor, rest⟩
  rw [takeFirst, empty, Except.ok_bind, if_neg Bool.false_ne_true, first, Except.ok_bind, owns.represents.objAt,
    Except.ok_bind, unlinked]
  rfl

end TakeFirst

section Find

variable {Addr : Type} [DecidableEq Addr] {base : Heap Addr Addr} {list : LinkedList Addr Addr}
  {packets : ObjectHeap Addr UcpPacket} {left right : List (Slot Addr UcpPacket)} {seqNo : UInt32} {fuel : Nat}

/-- From an element on, the loop finds what the walk along the window finds; it
stops at the anchor. -/
theorem findPacketLoop_eq (rep : Represents list ((left ++ right).map Slot.elem))
    (loads : ∀ slot ∈ right, packets slot.object.1 = some slot.value) (enough : right.length < fuel) :
    findPacketLoop list packets seqNo fuel (some (list.behind (right.map Slot.elem))) =
      .ok ((right.find? (hasSeqNo seqNo ∘ Slot.value)).map Slot.addr) := by
  induction right generalizing left fuel with
  | nil =>
    obtain ⟨fuel, rfl⟩ : ∃ rest, fuel = rest + 1 := ⟨fuel - 1, by omega⟩
    rw [findPacketLoop]
    exact if_pos rfl
  | cons slot right ih =>
    obtain ⟨fuel, rfl⟩ : ∃ rest, fuel = rest + 1 := ⟨fuel - 1, by omega⟩
    have onward : Represents list (((left ++ [slot]) ++ right).map Slot.elem) := by
      rwa [List.append_assoc, List.singleton_append]
    rw [List.map_append, List.map_cons] at rep
    have behind : list.behind ((slot :: right).map Slot.elem) = slot.addr := rfl
    have outside : slot.addr ≠ list.anchor := rep.anchor_not_mem (by simp [Slot.elem])
    have obj : list.obj (some slot.addr) = .ok (some slot.object.1) := rep.objAt
    have load : packets.load (some slot.object.1) = .ok slot.value :=
      ObjectHeap.load_some (loads slot (List.mem_cons_self ..))
    obtain ⟨atElem, here, _, next, _⟩ := rep.atElem
    have here : list.heap.load (some slot.addr) = .ok atElem := Heap.load_some here
    rw [behind, findPacketLoop, if_neg fun same => outside (Option.some.inj same), obj, Except.ok_bind, load,
      Except.ok_bind]
    by_cases found : hasSeqNo seqNo slot.value = true
    · have stops : (hasSeqNo seqNo ∘ Slot.value) slot = true := found
      rw [if_pos found, List.find?_cons_of_pos stops]
      rfl
    · have passes : ¬(hasSeqNo seqNo ∘ Slot.value) slot = true := found
      rw [if_neg found, here, Except.ok_bind, next, List.find?_cons_of_neg passes]
      exact ih onward (fun other member => loads other (List.mem_cons_of_mem _ member)) (Nat.lt_of_succ_lt_succ enough)

theorem findPacket_eq (rep : Represents list (right.map Slot.elem))
    (loads : ∀ slot ∈ right, packets slot.object.1 = some slot.value) (enough : right.length < fuel) :
    findPacket fuel list packets seqNo = .ok ((right.find? (hasSeqNo seqNo ∘ Slot.value)).map Slot.addr) := by
  obtain ⟨anchor, here, next, _⟩ := rep.atAnchor
  have rep : Represents list (([] ++ right).map Slot.elem) := rep
  rw [findPacket, Heap.load_some here, Except.ok_bind, next]
  exact findPacketLoop_eq rep loads enough

end Find

section Steps

variable {Addr : Type} {base : Memory Addr UcpPacket} {w : ClientWindows Addr}
  {windows : UCP.ClientWindows} {pending inFlight left right : List (Slot Addr UcpPacket)}
  {slot : Slot Addr UcpPacket}
  {hand made : List (Addr × UcpPacket)}

theorem WindowsHold.packet_of_mem (holds : WindowsHold base w pending inFlight hand made)
    {object : Addr × UcpPacket}
    (member : object ∈ (pending ++ inFlight).map Slot.object ++ hand) : w.packets object.1 = some object.2 :=
  holds.stores.value object (holds.placed.subset member)

theorem WindowsHold.loads (holds : WindowsHold base w pending inFlight hand made) :
    ∀ slot ∈ inFlight, w.packets slot.object.1 = some slot.value := by
  intro slot member
  have placed : slot.object ∈ (pending ++ inFlight).map Slot.object :=
    List.mem_map_of_mem (List.mem_append_right _ member)
  exact holds.packet_of_mem (List.mem_append_left _ placed)

variable [DecidableEq Addr]

/-- The first pending packet comes in hand. -/
theorem WindowsHold.takePending (holds : WindowsHold base w (slot :: pending) inFlight [] made) :
    ∃ list, takeFirst w.pending = .ok (some (some slot.object.1, list)) ∧
      WindowsHold base (w.setPending list) pending inFlight [slot.object] made := by
  obtain ⟨mid, other, owns⟩ := holds.beside
  obtain ⟨list, taken, anchor, rest⟩ := takeFirst_cons owns
  refine ⟨list, taken, ⟨mid, other, rest⟩, holds.stores, ?_⟩
  refine (List.Perm.subperm_right ?_).mp holds.placed
  simp only [List.cons_append, List.map_cons, List.append_nil]
  exact (List.perm_append_singleton slot.object _).symm

theorem WindowsHold.takeInFlight (holds : WindowsHold base w [] (slot :: inFlight) [] made) :
    ∃ list, takeFirst w.inFlight = .ok (some (some slot.object.1, list)) ∧
      WindowsHold base (w.setInFlight list) [] inFlight [slot.object] made := by
  obtain ⟨mid, other, owns⟩ := holds.beside.symm
  obtain ⟨list, taken, anchor, rest⟩ := takeFirst_cons owns
  have beside : Beside base.heap list.heap list.head (inFlight.map Slot.elem) w.pendingPacketList [] :=
    ⟨mid, other, rest⟩
  refine ⟨list, taken, beside.symm, holds.stores, ?_⟩
  refine (List.Perm.subperm_right ?_).mp holds.placed
  simp only [List.nil_append, List.map_cons, List.append_nil]
  exact (List.perm_append_singleton slot.object _).symm

/-- A new packet comes in hand. -/
theorem WindowsHold.make (holds : WindowsHold base w pending inFlight [] made) {addr : Addr}
    (free : w.packets addr = none) (packet : UcpPacket) :
    WindowsHold base { w with packets := (w.packets.malloc (some addr) packet).2 } pending inFlight [(addr, packet)]
      (made ++ [(addr, packet)]) := by
  refine ⟨holds.beside, ?_, ?_⟩
  · have stores : Stores base.objects w.packets (made ++ []) := by
      rw [List.append_nil]
      exact holds.stores
    exact stores.insert free packet
  · have placed := holds.placed
    rw [List.append_nil] at placed
    refine (List.Perm.subperm_right (List.perm_append_singleton (addr, packet) _).symm).mp ?_
    exact (List.Perm.subperm_left (List.perm_append_singleton (addr, packet) made).symm).mp
      ((List.subperm_cons _).mpr placed)

/-- The packet in hand goes to the end of the in-flight window. -/
theorem WindowsHold.appendInFlight {object : Addr × UcpPacket}
    (holds : WindowsHold base w pending inFlight [object] made) {addr : Addr} (free : w.heap addr = none)
    (junk : LinkedListElem Addr Addr) :
    ∃ w', appendInFlight w (some object.1) (some (addr, junk)) = .ok w' ∧ w'.done = w.done ∧
      WindowsHold base w' pending (inFlight ++ [⟨addr, object⟩]) [] made := by
  obtain ⟨mid, other, owns⟩ := holds.beside.symm
  obtain ⟨list, appended, anchor, rest⟩ := owns.append free (some object.1) junk
  have beside : Beside base.heap list.heap list.head
    ((inFlight ++ [(⟨addr, object⟩ : Slot Addr UcpPacket)]).map Slot.elem)
      w.pendingPacketList (pending.map Slot.elem) := by
    rw [List.map_append]
    exact ⟨mid, other, rest⟩
  have appended : linkedListAppend w.inFlight (some object.1) (some (addr, junk)) = .ok (true, list) := appended
  refine ⟨w.setInFlight list, ?_, rfl, beside.symm, holds.stores, ?_⟩
  · rw [Pointer.appendInFlight, appended]
    rfl
  · have placed := holds.placed
    simpa using placed

/-- An element leaves the in-flight window, and its packet with it. -/
theorem WindowsHold.unlink (holds : WindowsHold base w pending (left ++ slot :: right) [] made) :
    ∃ list, linkedListUnlink w.inFlight (some slot.addr) = .ok list ∧
      WindowsHold base (w.setInFlight list) pending (left ++ right) [] made := by
  obtain ⟨mid, other, owns⟩ := holds.beside.symm
  rw [List.map_append, List.map_cons] at owns
  obtain ⟨list, unlinked, anchor, rest⟩ := owns.unlink
  have beside : Beside base.heap list.heap list.head ((left ++ right).map Slot.elem)
      w.pendingPacketList (pending.map Slot.elem) := by
    rw [List.map_append]
    exact ⟨mid, other, rest⟩
  refine ⟨list, unlinked, beside.symm, holds.stores, (List.Sublist.subperm ?_).trans holds.placed⟩
  have rest : (left ++ right).Sublist (left ++ slot :: right) :=
    List.Sublist.append_left (List.sublist_cons_self slot right) left
  exact ((rest.append_left pending).map Slot.object).append_right []

/-- A packet goes from the in-flight window to the end of the pending one. -/
theorem WindowsHold.move (holds : WindowsHold base w pending (left ++ slot :: right) [] made) {addr : Addr}
    (free : w.heap addr = none) (junk : LinkedListElem Addr Addr) :
    ∃ list, linkedListAppend w.pending (some slot.object.1) (some (addr, junk)) = .ok (true, list) ∧
      ∃ list', linkedListUnlink (w.setPending list).inFlight (some slot.addr) = .ok list' ∧
        WindowsHold base ((w.setPending list).setInFlight list') (pending ++ [{ slot with addr }]) (left ++ right)
          [] made := by
  obtain ⟨mid, other, owns⟩ := holds.beside
  obtain ⟨list, appended, anchor, longer⟩ := owns.append free (some slot.object.1) junk
  have beside : Beside base.heap list.heap list.head ((pending ++ [{ slot with addr }]).map Slot.elem)
      w.inFlightPacketList ((left ++ slot :: right).map Slot.elem) := by
    rw [List.map_append]
    exact ⟨mid, other, longer⟩
  obtain ⟨mid', other', owns'⟩ := beside.symm
  rw [List.map_append, List.map_cons] at owns'
  obtain ⟨list', unlinked, anchor', rest⟩ := owns'.unlink
  have beside' : Beside base.heap list'.heap list'.head ((left ++ right).map Slot.elem) list.head
      ((pending ++ [{ slot with addr }]).map Slot.elem) := by
    rw [List.map_append]
    exact ⟨mid', other', rest⟩
  refine ⟨list, appended, list', unlinked, beside'.symm, holds.stores, (List.Perm.subperm_right ?_).mp holds.placed⟩
  simp only [List.map_append, List.map_cons, List.append_assoc, List.map_nil, List.append_nil]
  refine List.Perm.append_left _ ?_
  exact List.perm_middle

end Steps

section Calls

variable {Addr : Type} {base : Memory Addr UcpPacket} {w : ClientWindows Addr}
  {windows : UCP.ClientWindows} {hand made : List (Addr × UcpPacket)} {handle : FileIoPartitionHandle} {addr : Addr}

theorem Mirrors.sendDatagram {object : Addr × UcpPacket} (mirrors : Mirrors base w windows [object] made)
    (buf : Buffer udpPacketSize) :
    Pointer.sendDatagram w (some object.1) buf = ofMem (UCP.sendDatagram object.2 buf) := by
  obtain ⟨pending, inFlight, holds, rfl⟩ := mirrors
  have here : w.packets object.1 = some object.2 :=
    holds.packet_of_mem (List.mem_append_right _ (List.mem_singleton_self _))
  rw [Pointer.sendDatagram, ObjectHeap.load_some here]
  rfl

variable [DecidableEq Addr]

/-- Both windows are empty at the start. -/
theorem clientWindowsInit_mirrors {pending inFlight : Addr} (free : base.heap pending = none)
    (freeInFlight : base.heap inFlight = none) (apart : pending ≠ inFlight) :
    ∃ w, clientWindowsInit base pending inFlight = .ok w ∧ Mirrors base w UCP.clientWindowsInit [] [] := by
  obtain ⟨heap, set, below⟩ : ∃ heap, heap = base.heap.set inFlight (some ⟨none, some inFlight, some inFlight⟩) ∧
      Owns base.heap ⟨0, inFlight, heap⟩ [] := ⟨_, rfl, .linked freeInFlight⟩
  have free : heap pending = none := by
    rw [set, Heap.set_of_ne _ apart]
    exact free
  refine ⟨⟨⟨0, pending⟩, ⟨0, inFlight⟩, false, heap.set pending (some ⟨none, some pending, some pending⟩), base.objects⟩,
    ?_, [], [], ⟨⟨heap, below, .linked free⟩, .refl base.objects, List.Subperm.refl []⟩, rfl⟩
  rw [clientWindowsInit, linkedListInit_eq, Except.ok_bind, ← set]
  dsimp only
  rw [linkedListInit_eq]
  rfl

/-- What the list of all packets made becomes when the next one is taken: it
changes only with a segment that is read. -/
def NextMade (handle : FileIoPartitionHandle) (addr : Addr) (made : List (Addr × UcpPacket))
    (handle' : FileIoPartitionHandle) (made' : List (Addr × UcpPacket)) : Prop :=
  (handle' = handle ∧ made' = made) ∨
    ∃ file, UCP.fileIoGetNextPacket handle = .ok (file, handle') ∧ made' = made ++ file.toList.map fun p => (addr, p)

/-- `get_next_packet` in memory takes the same packet as on the windows, or faults
in the same buffer. -/
theorem Mirrors.getNextPacket (mirrors : Mirrors base w windows [] made) (free : w.packets addr = none)
    (handle : FileIoPartitionHandle) :
    (∃ fault, UCP.getNextPacket windows handle = .error fault ∧
      Pointer.getNextPacket w handle (some addr) = .error (.mem fault)) ∨
    ∃ (hand : Option (Addr × UcpPacket)) (windows' : UCP.ClientWindows) (handle' : FileIoPartitionHandle)
      (w' : ClientWindows Addr) (made' : List (Addr × UcpPacket)),
      UCP.getNextPacket windows handle = .ok (hand.map (·.2), windows', handle') ∧
      Pointer.getNextPacket w handle (some addr) = .ok (hand.map (·.1), w', handle') ∧
      Mirrors base w' windows' hand.toList made' ∧ NextMade handle addr made handle' made' := by
  obtain ⟨pending, inFlight, holds, rfl⟩ := mirrors
  cases pending with
  | cons slot pending =>
    obtain ⟨list, taken, holds'⟩ := holds.takePending
    refine Or.inr ⟨some slot.object, _, handle, _, made, rfl, ?_, ⟨pending, inFlight, holds', rfl⟩, Or.inl ⟨rfl, rfl⟩⟩
    rw [Pointer.getNextPacket, taken]
    rfl
  | nil =>
    have nothing : takeFirst w.pending = .ok none := by
      obtain ⟨mid, _, owns⟩ := holds.beside
      exact takeFirst_nil owns
    rw [Pointer.getNextPacket, nothing, ofHeap_ok, Except.ok_bind, Pointer.fileIoGetNextPacket]
    cases file : UCP.fileIoGetNextPacket handle with
    | error fault =>
      refine Or.inl ⟨fault, ?_, rfl⟩
      simp only [UCP.getNextPacket, ClientWindows.erase, List.map_nil, file]
      rfl
    | ok result =>
      obtain ⟨_ | packet, handle'⟩ := result
      · cases inFlight with
        | nil =>
          have none : takeFirst w.inFlight = .ok none := by
            obtain ⟨mid, _, owns⟩ := holds.beside.symm
            exact takeFirst_nil owns
          refine Or.inr ⟨.none, _, handle', { w with packets := w.packets }, made, ?_, ?_, ⟨[], [], holds, rfl⟩,
            Or.inr ⟨.none, file, (List.append_nil _).symm⟩⟩
          · simp only [UCP.getNextPacket, ClientWindows.erase, List.map_nil, file]
            rfl
          · simp only [ofMem_ok, pure, Except.pure, Except.ok_bind, Option.isSome_none, Bool.false_eq_true, if_false, none,
              ofHeap_ok]
            rfl
        | cons slot inFlight =>
          obtain ⟨list, taken, holds'⟩ := holds.takeInFlight
          refine Or.inr ⟨some slot.object, _, handle', _, made, ?_, ?_, ⟨[], inFlight, holds', rfl⟩,
            Or.inr ⟨.none, file, (List.append_nil _).symm⟩⟩
          · simp only [UCP.getNextPacket, ClientWindows.erase, List.map_nil, List.map_cons, file]
            rfl
          · simp only [ofMem_ok, pure, Except.pure, Except.ok_bind, Option.isSome_none, Bool.false_eq_true, if_false,
              taken, ofHeap_ok]
            rfl
      · refine Or.inr ⟨some (addr, packet), _, handle', _, _, ?_, ?_, ⟨[], inFlight, holds.make free packet, rfl⟩,
          Or.inr ⟨some packet, file, rfl⟩⟩
        · simp only [UCP.getNextPacket, ClientWindows.erase, List.map_nil, file]
          rfl
        · simp only [ofMem_ok, pure, Except.pure, Except.ok_bind, ObjectHeap.malloc,
            Option.some_ne_none, false_and, if_false, Option.isSome_some,
            if_true]
          rfl

/-- What a search of the in-flight window finds, with the place of it. -/
theorem WindowsHold.find {pending inFlight : List (Slot Addr UcpPacket)}
    (holds : WindowsHold base w pending inFlight hand made)
    {fuel : Nat} (enough : inFlight.length < fuel) (seqNo : UInt32) :
    (findPacket fuel w.inFlight w.packets seqNo = .ok none ∧
      UCP.findPacket (inFlight.map Slot.value) seqNo = none) ∨
    ∃ left slot right, inFlight = left ++ slot :: right ∧
      findPacket fuel w.inFlight w.packets seqNo = .ok (some slot.addr) ∧
      UCP.findPacket (inFlight.map Slot.value) seqNo = some slot.value ∧
      unlinkPacket (inFlight.map Slot.value) seqNo = (left ++ right).map Slot.value := by
  obtain ⟨mid, _, owns⟩ := holds.beside.symm
  have found : findPacket fuel w.inFlight w.packets seqNo = _ := findPacket_eq owns.represents holds.loads enough
  rw [found, UCP.findPacket, List.find?_map, unlinkPacket, List.eraseP_map]
  cases search : inFlight.find? (hasSeqNo seqNo ∘ Slot.value) with
  | none => exact Or.inl ⟨rfl, rfl⟩
  | some slot =>
    obtain ⟨here, left, right, rfl, before⟩ := List.find?_eq_some_iff_append.mp search
    refine Or.inr ⟨left, slot, right, rfl, rfl, rfl, ?_⟩
    rw [List.eraseP_append_right _ fun other member => by simpa using before other member,
      List.eraseP_cons_of_pos here]

/-- A control packet does to the windows in memory what it does to the windows. -/
theorem Mirrors.onCtrlPacket (mirrors : Mirrors base w windows [] made) (free : w.heap addr = none)
    (junk : LinkedListElem Addr Addr) {fuel : Nat} (enough : windows.inFlightPacketList.length < fuel)
    (ctrlPacket : UcpCtrlPacket) :
    ∃ w', Pointer.onCtrlPacket fuel w ctrlPacket (some (addr, junk)) = .ok w' ∧
      Mirrors base w' (UCP.onCtrlPacket windows ctrlPacket) [] made := by
  obtain ⟨pending, inFlight, holds, rfl⟩ := mirrors
  have enough : inFlight.length < fuel := by simpa [ClientWindows.erase] using enough
  have list : (w.erase pending inFlight).inFlightPacketList = inFlight.map Slot.value := rfl
  rw [Pointer.onCtrlPacket, UCP.onCtrlPacket, list]
  by_cases ack : ctrlPacket.flag = ucpFlagAck
  · rw [if_pos ack, if_pos ack]
    rcases holds.find enough ctrlPacket.seqNo with ⟨nothing, absent⟩ | ⟨left, slot, right, rfl, found, present, unlinks⟩
    · rw [nothing, absent]
      exact ⟨w, rfl, pending, inFlight, holds, rfl⟩
    · obtain ⟨list, unlinked, holds'⟩ := holds.unlink
      refine ⟨w.setInFlight list, ?_, pending, left ++ right, holds', ?_⟩
      · rw [found, Except.ok_bind, if_neg (Option.some_ne_none _), unlinked]
        rfl
      · rw [present, unlinks]
        rfl
  rw [if_neg ack, if_neg ack]
  by_cases nack : ctrlPacket.flag = ucpFlagNack
  · rw [if_pos nack, if_pos nack]
    rcases holds.find enough ctrlPacket.seqNo with ⟨nothing, absent⟩ | ⟨left, slot, right, rfl, found, present, unlinks⟩
    · rw [nothing, absent]
      exact ⟨w, rfl, pending, inFlight, holds, rfl⟩
    · have obj : w.inFlight.obj (some slot.addr) = .ok (some slot.object.1) := by
        obtain ⟨mid, _, owns⟩ := holds.beside.symm
        have rep := owns.represents
        rw [List.map_append, List.map_cons] at rep
        exact rep.objAt
      obtain ⟨list, appended, list', unlinked, holds'⟩ := holds.move free junk
      refine ⟨(w.setPending list).setInFlight list', ?_, pending ++ [{ slot with addr }], left ++ right, holds', ?_⟩
      · rw [found, Except.ok_bind, if_neg (Option.some_ne_none _), obj, Except.ok_bind, appended, Except.ok_bind]
        dsimp only
        rw [unlinked]
        rfl
      · rw [present, unlinks]
        simp [ClientWindows.erase, ClientWindows.setPending, ClientWindows.setInFlight, Slot.value]
  rw [if_neg nack, if_neg nack]
  by_cases fin : ctrlPacket.flag = ucpFlagFin
  · rw [if_pos fin, if_pos fin]
    exact ⟨{ w with done := true }, rfl, pending, inFlight, ⟨holds.beside, holds.stores, holds.placed⟩, rfl⟩
  · rw [if_neg fin, if_neg fin]
    exact ⟨w, rfl, pending, inFlight, holds, rfl⟩

/-- A read from the control connection. -/
theorem Mirrors.clientReceive (mirrors : Mirrors base w windows [] made) (free : w.heap addr = none)
    (junk : LinkedListElem Addr Addr) {fuel : Nat} (enough : windows.inFlightPacketList.length < fuel)
    (incoming : List UInt8) (rspPkt : UcpPacket) :
    (∃ fault, UCP.clientReceive windows incoming rspPkt = .error fault ∧
      Pointer.clientReceive fuel w incoming rspPkt (some (addr, junk)) = .error (.mem fault)) ∨
    ∃ windows' w', UCP.clientReceive windows incoming rspPkt = .ok windows' ∧
      Pointer.clientReceive fuel w incoming rspPkt (some (addr, junk)) = .ok w' ∧ Mirrors base w' windows' [] made := by
  rw [UCP.clientReceive, Pointer.clientReceive]
  cases tcpServerReceiveSgmnt incoming with
  | error fault => exact Or.inl ⟨fault, rfl, rfl⟩
  | ok sgmnt =>
    rw [ofMem_ok, Except.ok_bind, Except.ok_bind, UCP.onAckReceived, Pointer.onAckReceived]
    cases ucpPacketDecode sgmnt.data.bytes sgmnt.dataLen rspPkt with
    | error fault => exact Or.inl ⟨fault, rfl, rfl⟩
    | ok packet =>
      rw [ofMem_ok, Except.ok_bind, Except.ok_bind]
      by_cases ctrl : packet.type = ucpPacketTypeCtrl
      · obtain ⟨w', handled, mirrors'⟩ := mirrors.onCtrlPacket free junk enough packet.ctrlPacket
        rw [if_pos ctrl, if_pos ctrl, handled]
        exact Or.inr ⟨_, w', rfl, rfl, mirrors'⟩
      · rw [if_neg ctrl, if_neg ctrl]
        exact Or.inr ⟨windows, w, rfl, rfl, mirrors⟩

theorem Mirrors.appendInFlight {object : Addr × UcpPacket} (mirrors : Mirrors base w windows [object] made)
    (free : w.heap addr = none) (junk : LinkedListElem Addr Addr) :
    ∃ w', Pointer.appendInFlight w (some object.1) (some (addr, junk)) = .ok w' ∧
      Mirrors base w' (UCP.appendInFlight windows object.2) [] made := by
  obtain ⟨pending, inFlight, holds, rfl⟩ := mirrors
  obtain ⟨w', appended, done, holds'⟩ := holds.appendInFlight free junk
  refine ⟨w', appended, pending, inFlight ++ [⟨addr, object⟩], holds', ?_⟩
  simp [UCP.appendInFlight, ClientWindows.erase, done, Slot.value]

end Calls

end UCP.Pointer
