import UCP.PointerSystem

namespace UCP.Pointer

/-- No part of the memory of the two processes ever runs out. -/
structure Endless {Addr : Type} (clientBase : Memory Addr UcpPacket) (serverBase : Memory Addr SequencerItem)
    (baseItems : ObjectHeap Addr SequencingQueueItem) : Prop where
  elements : {addr | clientBase.heap addr = none}.Infinite
  packets : {addr | clientBase.objects addr = none}.Infinite
  serverElements : {addr | serverBase.heap addr = none}.Infinite
  ranges : {addr | serverBase.objects addr = none}.Infinite
  items : {addr | baseItems addr = none}.Infinite

section Free

variable {Addr : Type} {clientBase : Memory Addr UcpPacket} {serverBase : Memory Addr SequencerItem}
  {baseItems : ObjectHeap Addr SequencingQueueItem} {w : ClientWindows Addr} {windows : UCP.ClientWindows}
  {hand made : List (Addr × UcpPacket)} {p : ServerProcess Addr} {s : ServerState}

theorem Endless.free_packet (endless : Endless clientBase serverBase baseItems)
    (mirrors : Mirrors clientBase w windows hand made) : ∃ addr, w.packets addr = none := by
  obtain ⟨_, _, holds, _⟩ := mirrors
  exact (holds.stores.footprint.endless endless.packets).nonempty

theorem Endless.free_element (endless : Endless clientBase serverBase baseItems)
    (mirrors : Mirrors clientBase w windows hand made) : ∃ addr, w.heap addr = none := by
  obtain ⟨_, _, ⟨⟨mid, below, above⟩, _, _⟩, _⟩ := mirrors
  exact (above.footprint.endless (below.footprint.endless endless.elements)).nonempty

theorem Endless.free_server (endless : Endless clientBase serverBase baseItems)
    (mirrors : ProcessMirrors serverBase baseItems p s) :
    (∃ addr, p.heap addr = none) ∧ (∃ addr, p.items addr = none) ∧ ∃ addr, p.ranges addr = none := by
  obtain ⟨slots, ranges, mid, holds, held, _⟩ := mirrors
  have items := (holds.stores.footprint.endless endless.items).nonempty
  rcases held with ⟨_, ⟨cells, ⟨list, objects⟩, _⟩, _⟩ | ⟨_, _, rfl, sameRanges⟩
  · exact ⟨(holds.list.footprint.endless (list.footprint.endless endless.serverElements)).nonempty, items,
      (objects.footprint.endless endless.ranges).nonempty⟩
  · rw [sameRanges]
    exact ⟨(holds.list.footprint.endless endless.serverElements).nonempty, items, endless.ranges.nonempty⟩

end Free

section Server

variable {Addr : Type} [DecidableEq Addr] {clientBase : Memory Addr UcpPacket} {base : Memory Addr SequencerItem}
  {baseItems : ObjectHeap Addr SequencingQueueItem} {p : ServerProcess Addr} {s s' : ServerState}
  {arrives : List UInt8 → Prop} {e : ServerEvent}

/-- The sequencer has room as long as it has not got too many ranges. -/
theorem ProcessMirrors.room (mirrors : ProcessMirrors base baseItems p s)
    (runs : s.sequencing.pc ≠ .returned ∨ p.destroyed = false)
    (few : s.sequencing.sequencer.seq.length + 1 < 2 ^ 31) : p.Room (2 ^ 31) := by
  obtain ⟨slots, ranges, mid, holds, held, rfl⟩ := mirrors
  obtain ⟨_, _, refines, bounded⟩ := held.onTop runs holds
  have length : ranges.nullable.seq.length = ranges.seq.length := List.length_map _
  have count := refines.count (by rwa [length])
  rw [length] at count
  have few : ranges.seq.length + 1 < 2 ^ 31 := few
  rw [ServerProcess.Room, count]
  omega

/-- Every step of the two threads can be taken in memory. -/
theorem ProcessMirrors.lift (mirrors : ProcessMirrors base baseItems p s)
    (endless : Endless clientBase base baseItems)
    (few : s.sequencing.pc ≠ .returned → s.sequencing.sequencer.seq.length + 1 < 2 ^ 31)
    (step : ServerStep arrives s e s') :
    ∃ p', ProcessStep arrives p e p' ∧ ProcessMirrors base baseItems p' s' := by
  obtain ⟨⟨addr, free⟩, ⟨item, freeItem⟩, range, freeRange⟩ := endless.free_server mirrors
  cases step with
  | save arrived waiting received pushing =>
    obtain ⟨slots, ranges, mid, holds, held, rfl⟩ := mirrors
    exact ⟨_, .save arrived waiting received pushing, slots, ranges, mid, holds, held, rfl⟩
  | ignore arrived waiting received other =>
    obtain ⟨slots, ranges, mid, holds, held, rfl⟩ := mirrors
    exact ⟨_, .ignore arrived waiting received other, slots, ranges, mid, holds, held, rfl⟩
  | receiveError waiting =>
    obtain ⟨slots, ranges, mid, holds, held, rfl⟩ := mirrors
    exact ⟨_, .receiveError waiting, slots, ranges, mid, holds, held, rfl⟩
  | @push queued thread seqQueue pushing pushed =>
    have fresh : ObjectAllocation.Fresh ⟨some item, some (addr, ⟨none, none, none⟩)⟩ p.queue p.items :=
      ObjectAllocation.fresh_some free freeItem
    obtain ⟨p', ran, mirrors'⟩ := mirrors.push fresh (Option.some_ne_none item) queued
    rw [pushed] at mirrors'
    refine ⟨p', .push ?_ fresh (Option.some_ne_none item) ran, mirrors'⟩
    obtain ⟨slots, ranges, mid, holds, held, rfl⟩ := mirrors
    exact pushing
  | @sequence thread seqQueue sent taken =>
    have running : s.sequencing.pc ≠ .returned := by
      intro returned
      rw [UCP.sequencingThreadStep, returned] at taken
      cases taken
    have room := mirrors.room (.inl running) (few running)
    have fresh : ObjectAllocation.Fresh ⟨some range, some (addr, ⟨none, none, none⟩)⟩ p.seq.seq p.ranges :=
      ObjectAllocation.fresh_some free freeRange
    rcases mirrors.sequence room fresh (Option.some_ne_none range) with
      ⟨_, nothing⟩ | ⟨p', _, _, _, ran, taken', mirrors'⟩
    · cases nothing.symm.trans taken
    · cases taken'.symm.trans taken
      exact ⟨p', .sequence room fresh (Option.some_ne_none range) ran, mirrors'⟩
  | cancel returned =>
    obtain ⟨slots, ranges, mid, holds, held, rfl⟩ := mirrors
    exact ⟨_, .cancel returned, slots, ranges, mid, holds, held, rfl⟩

end Server

section System

variable {Addr : Type} [DecidableEq Addr] {clientBase : Memory Addr UcpPacket} {serverBase : Memory Addr SequencerItem}
  {baseItems : ObjectHeap Addr SequencingQueueItem} {c : List UInt8} {file : FileIoPartitionHandle}
  {s : SystemState Addr} {a a' : UCP.SystemState} {hand made : List (Addr × UcpPacket)} {k fuel : Nat}

/-- Every step of the system can be taken in memory. -/
theorem SystemMirrors.lift (mirrors : SystemMirrors clientBase serverBase baseItems c s a hand made k)
    (endless : Endless clientBase serverBase baseItems) (enough : segmentCount c < fuel)
    (few : a.server.sequencing.pc ≠ .returned → a.server.sequencing.sequencer.seq.length + 1 < 2 ^ 31)
    (step : UCP.SystemStep a a') :
    ∃ s' hand' made' k', SystemStep fuel s s' ∧
      SystemMirrors clientBase serverBase baseItems c s' a' hand' made' k' := by
  have room := mirrors.inFlight_lt enough
  obtain ⟨client, windows, reading, made_eq, server, source, network, stream, ended⟩ := mirrors
  cases step with
  | @get next windows' source' atGet taken =>
    rw [atGet] at client
    obtain ⟨rfl, atGet'⟩ := client.of_get
    obtain ⟨addr, free⟩ := endless.free_packet windows
    rw [source] at taken
    rcases windows.getNextPacket free s.source with ⟨fault, faults, _⟩ | ⟨hand, _, _, w', made', taken', ran, next, reads⟩
    · cases faults.symm.trans taken
    cases taken'.symm.trans taken
    obtain ⟨k', grows, reading', made_eq'⟩ := reads.reads reading made_eq
    refine ⟨_, hand.toList, made', k', .get atGet' free ran, ClientPc.means_next hand, next, reading', made_eq', server,
      rfl, network, stream, fun left => ?_⟩
    cases hand with
    | some object => cases left
    | none =>
      obtain ⟨empty, finished⟩ := getNextPacket_exhausted reading taken
      exact ⟨empty, finished.trans grows⟩
  | @send packet datagram buf atSend sent =>
    rw [atSend] at client
    obtain ⟨addr, rfl, atSend'⟩ := client.of_send
    have sent' : sendDatagram s.windows (some addr) buf = .ok datagram := by
      rw [windows.sendDatagram, sent]
      rfl
    exact ⟨_, [(addr, packet)], made, k, .send buf atSend' sent',
      .append (addr, packet), windows, reading, made_eq, server,
      source, congrArg (datagram :: ·) network, stream, fun left => by cases left⟩
  | @append packet atAppend =>
    rw [atAppend] at client
    obtain ⟨object, rfl, atAppend'⟩ := client.of_append
    obtain ⟨addr, free⟩ := endless.free_element windows
    obtain ⟨w', appended, windows'⟩ := windows.appendInFlight free ⟨none, none, none⟩
    exact ⟨_, [], made, k, .append atAppend' free appended, .tick, windows', reading, made_eq, server, source, network,
      stream, fun left => by cases left⟩
  | tickIdle atTick =>
    rw [atTick] at client
    obtain ⟨rfl, atTick'⟩ := client.of_tick
    exact ⟨_, [], made, k, .tickIdle atTick', windows.afterTick, windows, reading, made_eq, server, source, network,
      stream, fun left => absurd left (afterTick_going s.windows)⟩
  | @tickRead incoming rest windows' rspPkt atTick unread aligned whole fits received =>
    rw [atTick] at client
    obtain ⟨rfl, atTick'⟩ := client.of_tick
    obtain ⟨addr, free⟩ := endless.free_element windows
    rw [stream] at unread aligned
    rcases windows.clientReceive free ⟨none, none, none⟩ room incoming rspPkt with
      ⟨fault, faults, _⟩ | ⟨_, w', received', ran, mirrors'⟩
    · cases faults.symm.trans received
    cases received'.symm.trans received
    exact ⟨_, [], made, k, .tickRead rspPkt atTick' unread aligned whole fits free ran, mirrors'.afterTick, mirrors',
      reading, made_eq, server, source, network, rfl, fun left => absurd left (afterTick_going _)⟩
  | @serverSent seqNo flag server' bytes buf data step encoded =>
    rw [network] at step
    obtain ⟨p', step', server'⟩ := server.lift endless few step
    exact ⟨_, hand, made, k, .serverSent buf data step' encoded, client, windows, reading, made_eq, server', source,
      network, congrArg (· ++ bytes) stream, ended⟩
  | @server e server' step quiet =>
    rw [network] at step
    obtain ⟨p', step', server'⟩ := server.lift endless few step
    exact ⟨_, hand, made, k, .server step' quiet, client, windows, reading, made_eq, server', source, network, stream,
      ended⟩

end System

section Runs

variable {Addr : Type} {clientBase : Memory Addr UcpPacket} {serverBase : Memory Addr SequencerItem}
  {baseItems : ObjectHeap Addr SequencingQueueItem} {c : List UInt8} {file : FileIoPartitionHandle}
  {s : SystemState Addr} {a a' : UCP.SystemState} {hand made : List (Addr × UcpPacket)} {k fuel : Nat}

/-- The server of the system runs on the packets of the partition. -/
def Served (c : List UInt8) (file : FileIoPartitionHandle) (a : UCP.SystemState) : Prop :=
  (∀ datagram ∈ a.network, SegmentDatagram c datagram) ∧ ∃ events, ServerRun c file events a.server

theorem Served.step (served : Served c file a)
    (mirrors : SystemMirrors clientBase serverBase baseItems c s a hand made k) (step : UCP.SystemStep a a') :
    Served c file a' := by
  obtain ⟨drawn, events, run⟩ := served
  cases step with
  | get => exact ⟨drawn, events, run⟩
  | @send packet datagram buf atSend sent =>
    have client := mirrors.client
    rw [atSend] at client
    obtain ⟨addr, rfl, _⟩ := client.of_send
    obtain ⟨i, before, rfl⟩ := mirrors.drawn (List.mem_singleton_self (addr, packet))
    rw [sendDatagram_eq (segment_encodable c i)] at sent
    cases sent
    exact ⟨segmentDatagram_cons drawn (before.trans_le mirrors.reading.reached), events, run⟩
  | append => exact ⟨drawn, events, run⟩
  | tickIdle => exact ⟨drawn, events, run⟩
  | tickRead => exact ⟨drawn, events, run⟩
  | serverSent _ _ step => exact ⟨drawn, _, .next run (step.mono drawn)⟩
  | server step => exact ⟨drawn, _, .next run (step.mono drawn)⟩

/-- The sequencer never gets too many ranges while the server runs. -/
theorem Served.few (served : Served c file a) (few : segmentCount c + 1 < 2 ^ 31)
    (running : a.server.sequencing.pc ≠ .returned) : a.server.sequencing.sequencer.seq.length + 1 < 2 ^ 31 := by
  obtain ⟨_, events, run⟩ := served
  obtain ⟨processed, inv⟩ := serverRun_inv (by omega) run running
  have ranges := inv.ranges_le (by omega)
  omega

variable [DecidableEq Addr]

theorem Endless.start (endless : Endless clientBase serverBase baseItems) (c : List UInt8)
    (file : FileIoPartitionHandle) : ∃ s : SystemState Addr, SystemStart clientBase serverBase baseItems c file s := by
  obtain ⟨pending, free, inFlight, freeInFlight, apart⟩ := endless.elements.nontrivial
  obtain ⟨w, init, _⟩ := clientWindowsInit_mirrors free freeInFlight apart
  obtain ⟨queue, freeQueue, sequencer, freeSeq, apart'⟩ := endless.serverElements.nontrivial
  obtain ⟨p, started, _⟩ : ∃ p, serverProcessStart serverBase baseItems file 0 queue ⟨none, none, none⟩
      (some sequencer) = .ok (some p) ∧ ProcessMirrors serverBase baseItems p (serverStart file) :=
    serverProcessStart_mirrors freeQueue freeSeq apart'.symm file 0 _
  exact ⟨⟨.get, w, openPartition c, [], p, []⟩, rfl, ⟨pending, inFlight, free, freeInFlight, apart, init⟩, rfl, rfl,
    ⟨0, queue, _, sequencer, freeQueue, freeSeq, apart'.symm, started⟩, rfl⟩

/-- Every state that the system can reach on lists it can reach in memory. -/
theorem systemReachable_lift (endless : Endless clientBase serverBase baseItems) (enough : segmentCount c < fuel)
    (few : segmentCount c + 1 < 2 ^ 31) (reachable : UCP.SystemReachable c file a) :
    Served c file a ∧ ∃ s hand made k, SystemReachable clientBase serverBase baseItems c file fuel s ∧
      SystemMirrors clientBase serverBase baseItems c s a hand made k := by
  induction reachable with
  | refl =>
    obtain ⟨start, started⟩ := endless.start c file
    exact ⟨⟨fun _ member => absurd member List.not_mem_nil, [], .start⟩, start, [], [], 0,
      ⟨start, started, .refl⟩, started.mirrors⟩
  | tail _ step ih =>
    obtain ⟨served, s, hand, made, k, ⟨start, started, run⟩, mirrors⟩ := ih
    obtain ⟨s', hand', made', k', taken, mirrors'⟩ := mirrors.lift endless enough (served.few few) step
    exact ⟨served.step mirrors step, s', hand', made', k', ⟨start, started, run.tail taken⟩, mirrors'⟩

/-- Behind FIN the sequencer can be destroyed, if that has not been done. -/
theorem SystemMirrors.destroy (mirrors : SystemMirrors clientBase serverBase baseItems c s a hand made k)
    (returned : a.server.sequencing.pc = .returned) (few : a.server.sequencing.sequencer.seq.length + 1 < 2 ^ 31) :
    ∃ s', Relation.ReflTransGen (SystemStep fuel) s s' ∧ s'.server.destroyed = true := by
  cases alive : s.server.destroyed with
  | true => exact ⟨s, .refl, alive⟩
  | false =>
    have room := mirrors.server.room (.inr alive) few
    have returned' : s.server.pc = .returned := by
      obtain ⟨slots, ranges, mid, _, _, same⟩ := mirrors.server
      rw [same] at returned
      exact returned
    obtain ⟨p, destroyed, _⟩ := mirrors.server.destroy room returned' alive
    refine ⟨_, .single (.server (.destroy room returned' alive destroyed) fun _ _ => ServerEvent.noConfusion), ?_⟩
    rw [sequencingThreadDestroy] at destroyed
    obtain ⟨memory, _, same⟩ := Except.bind_eq_ok.mp destroyed
    rw [← Except.ok.inj same]

end Runs

end UCP.Pointer
