import UCP.PointerSystemProgress
import UCP.Scene

namespace UCP.Pointer

section Steps

variable {Addr : Type} [DecidableEq Addr] {clientBase : Memory Addr UcpPacket}
  {serverBase : Memory Addr SequencerItem}
  {baseItems : ObjectHeap Addr SequencingQueueItem} {c : List UInt8} {file : FileIoPartitionHandle}
  {s s' : SystemState Addr} {a : UCP.SystemState} {hand made : List (Addr × UcpPacket)} {k fuel : Nat}

/-- Every step in memory is one on what the memory means, or none. -/
theorem SystemMirrors.step (mirrors : SystemMirrors clientBase serverBase baseItems c s a hand made k)
    (enough : segmentCount c < fuel) (step : SystemStep fuel s s') :
    ∃ a' hand' made' k', Relation.ReflTransGen UCP.SystemStep a a' ∧
      SystemMirrors clientBase serverBase baseItems c s' a' hand' made' k' := by
  have room := mirrors.inFlight_lt enough
  obtain ⟨client, windows, reading, made_eq, server, source, network, stream, ended⟩ := mirrors
  cases step with
  | @get addr next w handle atGet free taken =>
    rw [atGet] at client
    obtain ⟨rfl, atGet'⟩ := client.get_inv
    rcases windows.getNextPacket free s.source with
      ⟨fault, _, faults⟩ | ⟨hand, windows', handle', w', made', taken', ran, next, reads⟩
    · cases faults.symm.trans taken
    obtain ⟨rfl, rest⟩ := Prod.mk.inj (Except.ok.inj (ran.symm.trans taken))
    obtain ⟨rfl, rfl⟩ := Prod.mk.inj rest
    obtain ⟨k', grows, reading', made_eq'⟩ := reads.reads reading made_eq
    rw [← source] at taken'
    refine ⟨_, hand.toList, made', k', .single (.get atGet' taken'),
      ⟨ClientPc.means_next hand, next, reading', made_eq', server, rfl, network, stream, fun left => ?_⟩⟩
    cases hand with
    | some object => cases left
    | none =>
      obtain ⟨empty, finished⟩ := getNextPacket_exhausted (source ▸ reading) taken'
      exact ⟨empty, finished.trans grows⟩
  | @send packet datagram buf atSend sent =>
    rw [atSend] at client
    obtain ⟨object, rfl, rfl, atSend'⟩ := client.send_inv
    rw [windows.sendDatagram] at sent
    exact ⟨_, [object], made, k, .single (.send buf atSend' (ofMem_eq_ok sent)),
      ⟨.append object, windows, reading, made_eq, server, source, congrArg (datagram :: ·) network, stream,
        fun left => by cases left⟩⟩
  | @append packet addr junk w atAppend free appended =>
    rw [atAppend] at client
    obtain ⟨object, rfl, rfl, atAppend'⟩ := client.append_inv
    obtain ⟨w', appended', windows'⟩ := windows.appendInFlight free junk
    obtain rfl := Except.ok.inj (appended'.symm.trans appended)
    exact ⟨_, [], made, k, .single (.append atAppend'),
      ⟨.tick, windows', reading, made_eq, server, source, network, stream,
        fun left => by cases left⟩⟩
  | tickIdle atTick =>
    rw [atTick] at client
    obtain ⟨rfl, atTick'⟩ := client.tick_inv
    exact ⟨_, [], made, k, .single (.tickIdle atTick'),
      ⟨windows.afterTick, windows, reading, made_eq, server, source, network, stream,
        fun left => absurd left (afterTick_going s.windows)⟩⟩
  | @tickRead incoming rest addr junk w rspPkt atTick split aligned whole within free received =>
    rw [atTick] at client
    obtain ⟨rfl, atTick'⟩ := client.tick_inv
    rcases windows.clientReceive free junk room incoming rspPkt with
      ⟨fault, _, faults⟩ | ⟨windows', w', received', ran, mirrors'⟩
    · cases faults.symm.trans received
    obtain rfl := Except.ok.inj (ran.symm.trans received)
    rw [← stream] at split aligned
    exact ⟨_, [], made, k, .single (.tickRead rspPkt atTick' split aligned whole within received'),
      ⟨mirrors'.afterTick, mirrors', reading, made_eq, server, source, network, rfl,
        fun left => absurd left (afterTick_going _)⟩⟩
  | @serverSent seqNo flag p bytes buf data taken encoded =>
    rw [← network] at taken
    obtain ⟨server', mirrors', step | ⟨silent, _⟩⟩ := server.step taken
    · exact ⟨_, hand, made, k, .single (.serverSent buf data step encoded),
        ⟨client, windows, reading, made_eq, mirrors', source, network, congrArg (· ++ bytes) stream,
          ended⟩⟩
    · cases silent
  | @server e p taken quiet =>
    rw [← network] at taken
    obtain ⟨server', mirrors', step | ⟨_, rfl⟩⟩ := server.step taken
    · exact ⟨_, hand, made, k, .single (.server step quiet),
        ⟨client, windows, reading, made_eq, mirrors', source, network, stream, ended⟩⟩
    · exact ⟨a, hand, made, k, .refl, client, windows, reading, made_eq, mirrors', source, network, stream, ended⟩

theorem SystemReachable.mirrors (reachable : SystemReachable clientBase serverBase baseItems c file fuel s)
    (enough : segmentCount c < fuel) :
    ∃ a hand made k, SystemMirrors clientBase serverBase baseItems c s a hand made k ∧ UCP.SystemReachable c file a := by
  obtain ⟨start, started, run⟩ := reachable
  induction run with
  | refl => exact ⟨_, [], [], 0, started.mirrors, .refl⟩
  | tail _ step ih =>
    obtain ⟨a, hand, made, k, mirrors, reached⟩ := ih
    obtain ⟨a', hand', made', k', steps, mirrors'⟩ := mirrors.step enough step
    exact ⟨a', hand', made', k', mirrors', reached.trans steps⟩

end Steps

/-- With memory that is free no call that may come next follows a pointer that is
null or not allocated, runs out of its loop or fails otherwise, whatever a read
from the control connection brings. -/
structure SystemState.Safe {Addr : Type} [DecidableEq Addr] (fuel : Nat) (s : SystemState Addr) : Prop where
  get : s.client = .get → ∀ addr, s.windows.packets addr = none →
    ∃ result, getNextPacket s.windows s.source (some addr) = .ok result
  send : ∀ packet, s.client = .send packet → ∀ buf, ∃ datagram, sendDatagram s.windows (some packet) buf = .ok datagram
  append : ∀ packet, s.client = .append packet → ∀ addr junk, s.windows.heap addr = none →
    ∃ windows, appendInFlight s.windows (some packet) (some (addr, junk)) = .ok windows
  tick : s.client = .tick → ∀ addr junk incoming rspPkt, s.windows.heap addr = none →
    incoming.length ≤ tcpSegmentSize →
    ∃ windows, clientReceive fuel s.windows incoming rspPkt (some (addr, junk)) = .ok windows
  push : ∀ item (allocation : ObjectAllocation Addr), allocation.Fresh s.server.queue s.server.items →
    allocation.obj ≠ none → ∃ server, receivingThreadPush item s.server allocation = .ok server
  sequence : ∀ fuel (allocation : ObjectAllocation Addr), s.server.Room fuel →
    allocation.Fresh s.server.seq.seq s.server.ranges → allocation.obj ≠ none →
    ∃ result, sequencingThreadStep fuel s.server allocation = .ok result
  destroy : ∀ fuel, s.server.Room fuel → s.server.pc = .returned → s.server.destroyed = false →
    ∃ server, sequencingThreadDestroy fuel s.server = .ok server

section Results

variable {Addr : Type} {clientBase : Memory Addr UcpPacket} {serverBase : Memory Addr SequencerItem}
  {baseItems : ObjectHeap Addr SequencingQueueItem} {c : List UInt8} {file : FileIoPartitionHandle}
  {s : SystemState Addr} {a : UCP.SystemState} {hand made : List (Addr × UcpPacket)} {k fuel : Nat}

variable [DecidableEq Addr]

theorem SystemMirrors.safe (mirrors : SystemMirrors clientBase serverBase baseItems c s a hand made k)
    (enough : segmentCount c < fuel) : s.Safe fuel where
  get atGet addr free := by
    have client := mirrors.client
    rw [atGet] at client
    obtain ⟨rfl, _⟩ := client.get_inv
    obtain ⟨result, w, h, k', run, _⟩ := getNextPacket_spec mirrors.reading a.windows
    rcases mirrors.windows.getNextPacket free s.source with ⟨fault, faults, _⟩ | ⟨_, _, _, _, _, _, ran, _⟩
    · cases faults.symm.trans run
    · exact ⟨_, ran⟩
  send packet atSend buf := by
    have client := mirrors.client
    rw [atSend] at client
    obtain ⟨object, rfl, rfl, _⟩ := client.send_inv
    obtain ⟨i, _, same⟩ := mirrors.drawn (List.mem_singleton_self object)
    rw [mirrors.windows.sendDatagram, ← same, sendDatagram_eq (segment_encodable c i)]
    exact ⟨_, rfl⟩
  append packet atAppend addr junk free := by
    have client := mirrors.client
    rw [atAppend] at client
    obtain ⟨object, rfl, rfl, _⟩ := client.append_inv
    obtain ⟨w, appended, _⟩ := mirrors.windows.appendInFlight free junk
    exact ⟨w, appended⟩
  tick atTick addr junk incoming rspPkt free fits := by
    have client := mirrors.client
    rw [atTick] at client
    obtain ⟨rfl, _⟩ := client.tick_inv
    obtain ⟨_, handled⟩ := clientReceive_isOk fits a.windows rspPkt
    rcases mirrors.windows.clientReceive free junk (mirrors.inFlight_lt enough) incoming rspPkt with
      ⟨fault, faults, _⟩ | ⟨_, w, _, ran, _⟩
    · cases faults.symm.trans handled
    · exact ⟨w, ran⟩
  push item allocation fresh allocated := by
    obtain ⟨p, pushed, _⟩ := mirrors.server.push fresh allocated item
    exact ⟨p, pushed⟩
  sequence fuel allocation room fresh allocated := by
    rcases mirrors.server.sequence room fresh allocated with ⟨nothing, _⟩ | ⟨_, _, _, _, ran, _⟩
    · exact ⟨_, nothing⟩
    · exact ⟨_, ran⟩
  destroy fuel room returned alive := by
    obtain ⟨p, destroyed, _⟩ := mirrors.server.destroy room returned alive
    exact ⟨p, destroyed⟩

/-- Nothing is allocated in either process. -/
def emptyClientMemory : Memory Nat UcpPacket where
  heap _ := none
  objects _ := none

def emptyQueueItems : ObjectHeap Nat SequencingQueueItem := fun _ => none

theorem emptyMemory_endless : Endless emptyClientMemory emptyMemory emptyQueueItems := by
  have all : {_addr : Nat | True}.Infinite := Set.infinite_univ
  constructor <;> simpa [emptyClientMemory, emptyMemory, emptyQueueItems] using all

/-- Two processes in empty memory transfer a partition of two packets. -/
def TwoPacketsReachable : SystemState Nat → Prop :=
  SystemReachable emptyClientMemory emptyMemory emptyQueueItems twoPackets (openPartition (List.replicate 9175 0)) 3

theorem twoPackets_lift {a : UCP.SystemState}
    (reachable : UCP.SystemReachable twoPackets (openPartition (List.replicate 9175 0)) a) :
    ∃ s hand made k, TwoPacketsReachable s ∧
      SystemMirrors emptyClientMemory emptyMemory emptyQueueItems twoPackets s a hand made k := by
  have count := segmentCount_twoPackets
  exact (systemReachable_lift emptyMemory_endless (by omega) (by omega) reachable).2

/-- Both packets have been sent and acknowledged, and the client has left. -/
theorem twoPackets_left : ∃ s, TwoPacketsReachable s ∧ s.client = .left true ∧
    ∀ i, i < 2 → (segment twoPackets i).wire ∈ s.network := by
  obtain ⟨a, reachable, _, stands⟩ := sceneRun_reachable segmentCount_twoPackets
    (scenes_second_dropped.append scenes_both_dropped) (openPartition (List.replicate 9175 0))
  obtain ⟨a', step, left, network, _⟩ := stands.leaves rfl segmentCount_twoPackets.le rfl rfl
  obtain ⟨s, _, _, _, reachable', mirrors⟩ := twoPackets_lift (reachable.tail step)
  refine ⟨s, reachable', (mirrors.client.left_iff true).mpr left, fun i sent => ?_⟩
  rw [← mirrors.network, network]
  exact stands.network i sent

/-- Both packets are in flight, and the second one has been saved. -/
theorem scenes_second_saved : Run (SceneStep 2) sceneStart [.client, .client, .client, .receiving]
    ⟨2, true, [], [0, 1], some 1, [], UCP.sequencerInit, []⟩ :=
  .cons (.sendNext rfl rfl (by decide)) (.cons (.idle rfl) (.cons (.sendNext rfl rfl (by decide))
    (.cons (.save (show 1 < 2 by decide) rfl) .start)))

theorem twoPackets_saved : ∃ s, TwoPacketsReachable s ∧ s.client = .tick ∧
    s.server.receiving.pc = .push (savedItem (segment twoPackets 1) true) := by
  obtain ⟨a, reachable, _, stands⟩ := sceneRun_reachable segmentCount_twoPackets scenes_second_saved
    (openPartition (List.replicate 9175 0))
  obtain ⟨s, _, _, _, reachable', mirrors⟩ := twoPackets_lift reachable
  have client := mirrors.client
  rw [stands.client] at client
  refine ⟨s, reachable', client.of_tick.2, ?_⟩
  obtain ⟨_, _, _, _, _, same⟩ := mirrors.server
  exact (congrArg (fun server => server.receiving.pc) same).symm.trans stands.receiving

/-- Then it waits in the queue. -/
theorem twoPackets_queued : ∃ s, TwoPacketsReachable s ∧
    Except.map (·.1) (sequencingQueuePop s.server.queue s.server.items) =
      .ok (some (savedItem (segment twoPackets 1) true)) := by
  obtain ⟨a, reachable, _, stands⟩ := sceneRun_reachable segmentCount_twoPackets (scenes_second_saved.next (.push rfl))
    (openPartition (List.replicate 9175 0))
  obtain ⟨s, _, _, _, reachable', mirrors⟩ := twoPackets_lift reachable
  obtain ⟨slots, ranges, mid, holds, _, same⟩ := mirrors.server
  have queue : slots.map Slot.value = [savedItem (segment twoPackets 1) true] :=
    (congrArg ServerState.seqQueue same).symm.trans stands.queue
  refine ⟨s, reachable', ?_⟩
  rw [holds.pop_value, ← List.head?_map, queue]
  rfl

/-- Both packets have been saved and a copy of the second one has not, so the
server has sent FIN and destroyed its sequencer. -/
theorem twoPackets_destroyed : ∃ s, TwoPacketsReachable s ∧ s.server.destroyed = true := by
  obtain ⟨a, reachable, _, stands⟩ := sceneRun_reachable segmentCount_twoPackets
    (scenes_second_dropped.append scenes_both_dropped) (openPartition (List.replicate 9175 0))
  obtain ⟨a', run, returned, sequencer⟩ := stands.ends (show 1 < 2 by decide) rfl rfl rfl rfl rfl
  obtain ⟨s, _, _, _, ⟨start, started, run'⟩, mirrors⟩ := twoPackets_lift (reachable.trans run)
  obtain ⟨s', ends, destroyed⟩ := mirrors.destroy returned (by rw [sequencer]; decide)
  exact ⟨s', ⟨start, started, run'.trans ends⟩, destroyed⟩

/-- In every interleaving the two processes on their pointers do what the system
does on lists: what they have sent, written and saved is that of a state that the
system can reach, and their memory means its windows, its queue and its ranges. -/
theorem system_in_memory_refines (enough : segmentCount c < fuel)
    (reachable : SystemReachable clientBase serverBase baseItems c file fuel s) :
    ∃ a, UCP.SystemReachable c file a ∧
      ∃ hand made k, SystemMirrors clientBase serverBase baseItems c s a hand made k := by
  obtain ⟨a, hand, made, k, mirrors, reached⟩ := reachable.mirrors enough
  exact ⟨a, reached, hand, made, k, mirrors⟩

theorem system_in_memory_refines_two_packets : ∃ s a, TwoPacketsReachable s ∧ s.client = .left true ∧
    UCP.SystemReachable twoPackets (openPartition (List.replicate 9175 0)) a ∧ a.client = .left true ∧
    a.windows.held = [] ∧ ∀ i, i < 2 → (segment twoPackets i).wire ∈ a.network := by
  obtain ⟨s, reachable, left, network⟩ := twoPackets_left
  have count := segmentCount_twoPackets
  obtain ⟨a, reached, _, _, _, mirrors⟩ := system_in_memory_refines (by omega) reachable
  rw [← mirrors.network] at network
  exact ⟨s, a, reachable, left, reached, (mirrors.client.left_iff true).mp left, (mirrors.ended left).1, network⟩

theorem system_in_memory_safe (enough : segmentCount c < fuel)
    (reachable : SystemReachable clientBase serverBase baseItems c file fuel s) : s.Safe fuel := by
  obtain ⟨a, hand, made, k, mirrors, _⟩ := reachable.mirrors enough
  exact mirrors.safe enough

theorem system_in_memory_safe_two_packets : ∃ s, TwoPacketsReachable s ∧ s.client = .tick ∧
    (∀ addr junk incoming rspPkt, s.windows.heap addr = none → incoming.length ≤ tcpSegmentSize →
      ∃ windows, clientReceive 3 s.windows incoming rspPkt (some (addr, junk)) = .ok windows) ∧
    s.server.receiving.pc = .push (savedItem (segment twoPackets 1) true) ∧
    ∀ allocation : ObjectAllocation Nat, allocation.Fresh s.server.queue s.server.items → allocation.obj ≠ none →
      ∃ server, receivingThreadPush (savedItem (segment twoPackets 1) true) s.server allocation = .ok server := by
  obtain ⟨s, reachable, atTick, pushing⟩ := twoPackets_saved
  have count := segmentCount_twoPackets
  have safe := system_in_memory_safe (by omega) reachable
  exact ⟨s, reachable, atTick, safe.tick atTick, pushing, safe.push _⟩

/-- The client frees every element of its windows, and no packet: its memory is
what it was at the start with the anchors, one element for each packet in a
window and all packets read so far, each at one place at most. -/
theorem client_memory_accounted (enough : segmentCount c < fuel)
    (reachable : SystemReachable clientBase serverBase baseItems c file fuel s) :
    ∃ pending inFlight hand made k, WindowsHold clientBase s.windows pending inFlight hand made ∧
      ReadHandle c k s.source ∧ made.map Prod.snd = (List.range k).map (segment c) ∧
      (s.client = .left true → pending = [] ∧ inFlight = [] ∧ k = segmentCount c) := by
  obtain ⟨a, hand, made, k, mirrors, _⟩ := reachable.mirrors enough
  obtain ⟨pending, inFlight, holds, windows⟩ := mirrors.windows
  refine ⟨pending, inFlight, hand, made, k, holds, mirrors.reading, mirrors.made_eq, fun left => ?_⟩
  obtain ⟨empty, finished⟩ := mirrors.ended left
  rw [windows, UCP.ClientWindows.held, ClientWindows.erase, List.append_eq_nil_iff] at empty
  exact ⟨List.map_eq_nil_iff.mp empty.1, List.map_eq_nil_iff.mp empty.2, le_antisymm mirrors.reading.reached finished⟩

theorem client_memory_accounted_two_packets : ∃ s hand made, TwoPacketsReachable s ∧ s.client = .left true ∧
    WindowsHold emptyClientMemory s.windows [] [] hand made ∧
    made.map Prod.snd = [segment twoPackets 0, segment twoPackets 1] := by
  obtain ⟨s, reachable, left, _⟩ := twoPackets_left
  have count := segmentCount_twoPackets
  obtain ⟨_, _, hand, made, k, holds, _, made_eq, ended⟩ := client_memory_accounted (by omega) reachable
  obtain ⟨rfl, rfl, all⟩ := ended left
  rw [all, count] at made_eq
  exact ⟨s, hand, made, reachable, left, holds, made_eq⟩

/-- After `sequencer_destroy` the memory of the server is what it was at the
start with the queue and the items that are left in it. -/
theorem server_memory_accounted (enough : segmentCount c < fuel)
    (reachable : SystemReachable clientBase serverBase baseItems c file fuel s) :
    ∃ slots mid, QueueHolds mid baseItems s.server.queue s.server.items slots ∧
      (s.server.destroyed = true → mid = serverBase.heap ∧ s.server.ranges = serverBase.objects) := by
  obtain ⟨a, hand, made, k, mirrors, _⟩ := reachable.mirrors enough
  obtain ⟨slots, ranges, mid, holds, held, _⟩ := mirrors.server
  refine ⟨slots, mid, holds, fun destroyed => ?_⟩
  rcases held with ⟨alive, _⟩ | ⟨_, _, restored, ranges⟩
  · cases alive.symm.trans destroyed
  · exact ⟨restored, ranges⟩

theorem server_memory_accounted_two_packets :
    (∃ s slot slots mid, TwoPacketsReachable s ∧
      QueueHolds mid emptyQueueItems s.server.queue s.server.items (slot :: slots) ∧
      slot.value = savedItem (segment twoPackets 1) true) ∧
    ∃ s slots, TwoPacketsReachable s ∧ s.server.destroyed = true ∧
      QueueHolds emptyMemory.heap emptyQueueItems s.server.queue s.server.items slots ∧
      s.server.ranges = emptyMemory.objects := by
  have count := segmentCount_twoPackets
  constructor
  · obtain ⟨s, reachable, waiting⟩ := twoPackets_queued
    obtain ⟨slots, mid, holds, _⟩ := server_memory_accounted (by omega) reachable
    obtain ⟨slot, front, same⟩ := Option.map_eq_some_iff.mp (Except.ok.inj (holds.pop_value.symm.trans waiting))
    obtain ⟨slots, rfl⟩ := List.head?_eq_some_iff.mp front
    exact ⟨s, slot, slots, mid, reachable, holds, same⟩
  · obtain ⟨s, reachable, destroyed⟩ := twoPackets_destroyed
    obtain ⟨slots, mid, holds, ended⟩ := server_memory_accounted (by omega) reachable
    obtain ⟨rfl, ranges⟩ := ended destroyed
    exact ⟨s, slots, reachable, destroyed, holds, ranges⟩

end Results

end UCP.Pointer
