import UCP.PointerClientRefinement
import UCP.PointerServerRefinement
import UCP.System

namespace UCP.Pointer

/-- Where `block_thread` stands in its send loop, with the address of the packet
it has in hand. -/
inductive ClientPc (Addr : Type)
  | get
  | send (packet : Addr)
  | append (packet : Addr)
  | tick
  | left (exhausted : Bool)

/-- One sending thread and one server, each with the memory of its process, and
the two channels between them. -/
structure SystemState (Addr : Type) where
  client : ClientPc Addr
  windows : ClientWindows Addr
  source : FileIoPartitionHandle
  network : List (List UInt8)
  server : ServerProcess Addr
  stream : List UInt8

def afterTick {Addr : Type} (windows : ClientWindows Addr) : ClientPc Addr :=
  if windows.done then .left false else .get

section Steps

variable {Addr : Type} [DecidableEq Addr]

/-- One step of the client thread or of one of the server's threads, as in
`SystemStep`. What `malloc` returns is never null and not in use; there is fuel
for the search of a window. -/
inductive SystemStep (fuel : Nat) (s : SystemState Addr) : SystemState Addr → Prop
  | get {addr next windows source} : s.client = .get → s.windows.packets addr = none →
      getNextPacket s.windows s.source (some addr) = .ok (next, windows, source) →
      SystemStep fuel s { s with client := next.elim (.left true) .send, windows, source }
  | send {packet datagram} (buf : Buffer udpPacketSize) : s.client = .send packet →
      sendDatagram s.windows (some packet) buf = .ok datagram →
      SystemStep fuel s { s with client := .append packet, network := datagram :: s.network }
  | append {packet addr junk windows} : s.client = .append packet → s.windows.heap addr = none →
      appendInFlight s.windows (some packet) (some (addr, junk)) = .ok windows →
      SystemStep fuel s { s with client := .tick, windows }
  | tickIdle : s.client = .tick → SystemStep fuel s { s with client := afterTick s.windows }
  | tickRead {incoming rest addr junk windows} (rspPkt : UcpPacket) : s.client = .tick → s.stream = incoming ++ rest →
      6 ∣ s.stream.length → 6 ≤ incoming.length → incoming.length ≤ tcpSegmentSize → s.windows.heap addr = none →
      clientReceive fuel s.windows incoming rspPkt (some (addr, junk)) = .ok windows →
      SystemStep fuel s { s with client := afterTick windows, windows, stream := rest }
  | serverSent {seqNo flag server bytes} (buf : Buffer 10) (data : Buffer tcpSegmentSize) :
      ProcessStep (· ∈ s.network) s.server (.sent seqNo flag) server → sendCtrlPacket seqNo flag buf data = .ok bytes →
      SystemStep fuel s { s with server, stream := s.stream ++ bytes }
  | server {e server} : ProcessStep (· ∈ s.network) s.server e server → (∀ seqNo flag, e ≠ .sent seqNo flag) →
      SystemStep fuel s { s with server }

/-- The two processes have set up their lists in memory that was free. The queue
of the server and its sequencer are apart, and so are the windows of the client. -/
structure SystemStart (clientBase : Memory Addr UcpPacket) (serverBase : Memory Addr SequencerItem)
    (baseItems : ObjectHeap Addr SequencingQueueItem) (c : List UInt8) (file : FileIoPartitionHandle)
    (s : SystemState Addr) : Prop where
  client : s.client = .get
  windows : ∃ pending inFlight, clientBase.heap pending = none ∧ clientBase.heap inFlight = none ∧ pending ≠ inFlight ∧
    clientWindowsInit clientBase pending inFlight = .ok s.windows
  source : s.source = openPartition c
  network : s.network = []
  server : ∃ numMembers queue junk sequencer, serverBase.heap queue = none ∧ serverBase.heap sequencer = none ∧
    sequencer ≠ queue ∧
    serverProcessStart serverBase baseItems file numMembers queue junk (some sequencer) = .ok (some s.server)
  stream : s.stream = []

/-- The states that any interleaving of the steps can reach from such a start. -/
def SystemReachable (clientBase : Memory Addr UcpPacket) (serverBase : Memory Addr SequencerItem)
    (baseItems : ObjectHeap Addr SequencingQueueItem) (c : List UInt8) (file : FileIoPartitionHandle) (fuel : Nat)
    (s : SystemState Addr) : Prop :=
  ∃ start, SystemStart clientBase serverBase baseItems c file start ∧
    Relation.ReflTransGen (SystemStep fuel) start s

end Steps

/-- The place of the client in its loop, and the packet that its pointer means. -/
inductive ClientPc.Means {Addr : Type} : ClientPc Addr → List (Addr × UcpPacket) → UCP.ClientPc → Prop
  | get : Means .get [] .get
  | send (object : Addr × UcpPacket) : Means (.send object.1) [object] (.send object.2)
  | append (object : Addr × UcpPacket) : Means (.append object.1) [object] (.append object.2)
  | tick : Means .tick [] .tick
  | left (exhausted : Bool) : Means (.left exhausted) [] (.left exhausted)

/-- The two processes in memory mean this state of the system. The packets that
the client has made are those it has read, one for each segment; when it ends for
want of packets it has read them all. -/
structure SystemMirrors {Addr : Type} (clientBase : Memory Addr UcpPacket) (serverBase : Memory Addr SequencerItem)
    (baseItems : ObjectHeap Addr SequencingQueueItem) (c : List UInt8) (s : SystemState Addr) (a : UCP.SystemState)
    (hand made : List (Addr × UcpPacket)) (k : Nat) : Prop where
  client : s.client.Means hand a.client
  windows : Mirrors clientBase s.windows a.windows hand made
  reading : ReadHandle c k s.source
  made_eq : made.map Prod.snd = (List.range k).map (segment c)
  server : ProcessMirrors serverBase baseItems s.server a.server
  source : a.source = s.source
  network : a.network = s.network
  stream : a.stream = s.stream
  ended : s.client = .left true → a.windows.held = [] ∧ segmentCount c ≤ k

section Mirrors

variable {Addr : Type} {clientBase : Memory Addr UcpPacket} {serverBase : Memory Addr SequencerItem}
  {baseItems : ObjectHeap Addr SequencingQueueItem} {c : List UInt8} {s s' : SystemState Addr} {a : UCP.SystemState}
  {hand made made' : List (Addr × UcpPacket)} {k fuel : Nat} {handle handle' : FileIoPartitionHandle} {addr : Addr}
  {windows : UCP.ClientWindows} {w : ClientWindows Addr}

theorem Mirrors.done (mirrors : Mirrors clientBase w windows hand made) : windows.done = w.done := by
  obtain ⟨_, _, _, rfl⟩ := mirrors
  rfl

theorem Mirrors.afterTick (mirrors : Mirrors clientBase w windows [] made) :
    (afterTick w).Means [] (UCP.afterTick windows) := by
  rw [Pointer.afterTick, UCP.afterTick, mirrors.done]
  cases w.done with
  | true => exact .left false
  | false => exact .get

theorem afterTick_going (w : ClientWindows Addr) : Pointer.afterTick w ≠ .left true := by
  rw [Pointer.afterTick]
  split <;> simp

/-- All packets in flight have been read. -/
theorem SystemMirrors.inFlight_lt (mirrors : SystemMirrors clientBase serverBase baseItems c s a hand made k)
    (enough : segmentCount c < fuel) : a.windows.inFlightPacketList.length < fuel := by
  obtain ⟨pending, inFlight, holds, windows⟩ := mirrors.windows
  have placed := holds.placed.length_le
  have count := congrArg List.length mirrors.made_eq
  have reached := mirrors.reading.reached
  rw [windows]
  simp only [ClientWindows.erase, List.length_map, List.length_append, List.length_range] at placed count ⊢
  omega

/-- A segment that is read is one more packet made. -/
theorem NextMade.reads (next : NextMade handle addr made handle' made') (reading : ReadHandle c k handle)
    (same : made.map Prod.snd = (List.range k).map (segment c)) :
    ∃ k', k ≤ k' ∧ ReadHandle c k' handle' ∧ made'.map Prod.snd = (List.range k').map (segment c) := by
  rcases next with ⟨rfl, rfl⟩ | ⟨file, read, rfl⟩
  · exact ⟨k, le_rfl, reading, same⟩
  by_cases within : k < segmentCount c
  · obtain ⟨after, run, next⟩ := reading.next within
    obtain ⟨rfl, rfl⟩ := Prod.mk.inj (Except.ok.inj (run.symm.trans read))
    refine ⟨k + 1, Nat.le_succ k, next, ?_⟩
    rw [List.map_append, same, List.range_succ, List.map_append]
    rfl
  · obtain ⟨after, run, next⟩ := reading.exhausted (Nat.not_lt.mp within)
    obtain ⟨rfl, rfl⟩ := Prod.mk.inj (Except.ok.inj (run.symm.trans read))
    refine ⟨k, le_rfl, next, ?_⟩
    rw [List.map_append, same]
    exact List.append_nil _

end Mirrors

theorem ofMem_eq_ok {Addr α : Type} {result : Except MemFault α} {a : α}
    (ran : (ofMem result : Except (ClientFault Addr) α) = .ok a) : result = .ok a := by
  cases result with
  | error fault => cases ran
  | ok value => exact congrArg Except.ok (Except.ok.inj ran)

section Means

variable {Addr : Type} {hand : List (Addr × UcpPacket)} {packet : Addr} {pc : UCP.ClientPc}

theorem ClientPc.Means.get_inv (means : ClientPc.Means .get hand pc) : hand = [] ∧ pc = .get := by
  cases means
  exact ⟨rfl, rfl⟩

theorem ClientPc.Means.send_inv (means : ClientPc.Means (.send packet) hand pc) :
    ∃ object, packet = object.1 ∧ hand = [object] ∧ pc = .send object.2 := by
  cases means with
  | send object => exact ⟨object, rfl, rfl, rfl⟩

theorem ClientPc.Means.append_inv (means : ClientPc.Means (.append packet) hand pc) :
    ∃ object, packet = object.1 ∧ hand = [object] ∧ pc = .append object.2 := by
  cases means with
  | append object => exact ⟨object, rfl, rfl, rfl⟩

theorem ClientPc.Means.tick_inv (means : ClientPc.Means .tick hand pc) : hand = [] ∧ pc = .tick := by
  cases means
  exact ⟨rfl, rfl⟩

theorem ClientPc.Means.of_get {pc : ClientPc Addr} (means : pc.Means hand .get) : hand = [] ∧ pc = .get := by
  cases means
  exact ⟨rfl, rfl⟩

theorem ClientPc.Means.of_send {pc : ClientPc Addr} {next : UcpPacket} (means : pc.Means hand (.send next)) :
    ∃ addr, hand = [(addr, next)] ∧ pc = .send addr := by
  cases means with
  | send object => exact ⟨object.1, rfl, rfl⟩

theorem ClientPc.Means.of_append {pc : ClientPc Addr} {next : UcpPacket} (means : pc.Means hand (.append next)) :
    ∃ addr, hand = [(addr, next)] ∧ pc = .append addr := by
  cases means with
  | append object => exact ⟨object.1, rfl, rfl⟩

theorem ClientPc.Means.of_tick {pc : ClientPc Addr} (means : pc.Means hand .tick) : hand = [] ∧ pc = .tick := by
  cases means
  exact ⟨rfl, rfl⟩

theorem ClientPc.Means.left_iff {pc : ClientPc Addr} {pc' : UCP.ClientPc} (means : pc.Means hand pc')
    (exhausted : Bool) : pc = .left exhausted ↔ pc' = .left exhausted := by
  cases means with
  | left => rw [ClientPc.left.injEq, UCP.ClientPc.left.injEq]
  | get => simp
  | send => simp
  | append => simp
  | tick => simp

theorem ClientPc.means_next (hand : Option (Addr × UcpPacket)) :
    ClientPc.Means ((hand.map (·.1)).elim (.left true) .send) hand.toList
      ((hand.map (·.2)).elim (.left true) .send) := by
  cases hand with
  | none => exact .left true
  | some object => exact .send object

end Means

/-- There is no next packet only when none is held, and all have been read. -/
theorem getNextPacket_exhausted {c : List UInt8} {k : Nat} {windows windows' : UCP.ClientWindows}
    {handle handle' : FileIoPartitionHandle} (reading : ReadHandle c k handle)
    (taken : UCP.getNextPacket windows handle = .ok (none, windows', handle')) :
    windows'.held = [] ∧ segmentCount c ≤ k := by
  obtain ⟨result, w, h, k', run, _, next⟩ := getNextPacket_spec reading windows
  obtain ⟨rfl, rest⟩ := Prod.mk.inj (Except.ok.inj (run.symm.trans taken))
  obtain ⟨rfl, rfl⟩ := Prod.mk.inj rest
  cases next with
  | exhausted empty finished => exact ⟨empty, finished⟩

section Start

variable {Addr : Type} {clientBase : Memory Addr UcpPacket} {serverBase : Memory Addr SequencerItem}
  {baseItems : ObjectHeap Addr SequencingQueueItem} {c : List UInt8} {file : FileIoPartitionHandle}
  {s : SystemState Addr} {a : UCP.SystemState} {hand made : List (Addr × UcpPacket)} {k : Nat}

/-- What is in hand has been read. -/
theorem SystemMirrors.drawn (mirrors : SystemMirrors clientBase serverBase baseItems c s a hand made k)
    {object : Addr × UcpPacket} (member : object ∈ hand) : ∃ i, i < k ∧ segment c i = object.2 := by
  obtain ⟨pending, inFlight, holds, _⟩ := mirrors.windows
  have made : object.2 ∈ made.map Prod.snd :=
    List.mem_map_of_mem (holds.placed.subset (List.mem_append_right _ member))
  rw [mirrors.made_eq] at made
  obtain ⟨i, before, same⟩ := List.mem_map.mp made
  exact ⟨i, List.mem_range.mp before, same⟩

variable [DecidableEq Addr]

theorem SystemStart.mirrors (start : SystemStart clientBase serverBase baseItems c file s) :
    SystemMirrors clientBase serverBase baseItems c s (systemStart c file) [] [] 0 := by
  obtain ⟨pending, inFlight, free, freeInFlight, apart, init⟩ := start.windows
  obtain ⟨w, init', windows⟩ := clientWindowsInit_mirrors free freeInFlight apart
  obtain rfl := Except.ok.inj (init'.symm.trans init)
  obtain ⟨numMembers, queue, junk, sequencer, freeQueue, freeSeq, apart', started⟩ := start.server
  obtain ⟨p, started', server⟩ := serverProcessStart_mirrors freeQueue freeSeq apart' file numMembers junk
  obtain rfl := Option.some.inj (Except.ok.inj (started'.symm.trans started))
  refine ⟨?_, windows, ?_, rfl, server, start.source.symm, start.network.symm, start.stream.symm, fun left => ?_⟩
  · rw [start.client]
    exact .get
  · rw [start.source]
    exact openPartition_readHandle c
  · cases start.client.symm.trans left

end Start

end UCP.Pointer
