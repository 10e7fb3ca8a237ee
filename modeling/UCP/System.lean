import Mathlib.Logic.Relation
import UCP.ClientAccount
import UCP.ServerRuns

namespace UCP

/-- Where `block_thread` stands in its send loop, with the packet it has in
hand; `left true` is behind a loop ended by `NULL`, `left false` by FIN. -/
inductive ClientPc
  | get
  | send (packet : UcpPacket)
  | append (packet : UcpPacket)
  | tick
  | left (exhausted : Bool)

/-- One sending thread, one server and the two channels between them: every
datagram ever sent, and the unread bytes of the control connection. -/
structure SystemState where
  client : ClientPc
  windows : ClientWindows
  source : FileIoPartitionHandle
  network : List (List UInt8)
  server : ServerState
  stream : List UInt8

def systemStart (c : List UInt8) (file : FileIoPartitionHandle) : SystemState where
  client := .get
  windows := clientWindowsInit
  source := openPartition c
  network := []
  server := serverStart file
  stream := []

def afterTick (windows : ClientWindows) : ClientPc := if windows.done then .left false else .get

/-- One step of the client thread or of one of the server's threads. The
network delivers any datagram ever sent, any number of times or never. Control
packets are written whole and have six bytes, so a read starts at the boundary
of one exactly when the unread bytes are a multiple of six. -/
inductive SystemStep (s : SystemState) : SystemState → Prop
  | get {next windows source} : s.client = .get → getNextPacket s.windows s.source = .ok (next, windows, source) →
      SystemStep s { s with client := next.elim (.left true) .send, windows, source }
  | send {packet datagram} (buf : Buffer udpPacketSize) : s.client = .send packet →
      sendDatagram packet buf = .ok datagram →
      SystemStep s { s with client := .append packet, network := datagram :: s.network }
  | append {packet} : s.client = .append packet →
      SystemStep s { s with client := .tick, windows := appendInFlight s.windows packet }
  | tickIdle : s.client = .tick → SystemStep s { s with client := afterTick s.windows }
  | tickRead {incoming rest windows} (rspPkt : UcpPacket) : s.client = .tick → s.stream = incoming ++ rest →
      6 ∣ s.stream.length → 6 ≤ incoming.length → incoming.length ≤ tcpSegmentSize →
      clientReceive s.windows incoming rspPkt = .ok windows →
      SystemStep s { s with client := afterTick windows, windows, stream := rest }
  | serverSent {seqNo flag server bytes} (buf : Buffer 10) (data : Buffer tcpSegmentSize) :
      ServerStep (· ∈ s.network) s.server (.sent seqNo flag) server →
      sendCtrlPacket seqNo flag buf data = .ok bytes →
      SystemStep s { s with server, stream := s.stream ++ bytes }
  | server {e server} : ServerStep (· ∈ s.network) s.server e server → (∀ seqNo flag, e ≠ .sent seqNo flag) →
      SystemStep s { s with server }

/-- The states that any interleaving of the steps can reach. -/
def SystemReachable (c : List UInt8) (file : FileIoPartitionHandle) : SystemState → Prop :=
  Relation.ReflTransGen SystemStep (systemStart c file)

def ClientPc.inHand : ClientPc → List UcpPacket
  | .send packet => [packet]
  | .append packet => [packet]
  | _ => []

/-- The server is done with packet `i` when all its bytes are in the file. -/
def InFile (c : List UInt8) (filled : Set Nat) (i : Nat) : Prop := (segment c i).covers ⊆ filled

/-- The server's part of the invariant: its file holds the right bytes where
something has been written, and every item on its way is backed by them. -/
structure ServerBacked (c : List UInt8) (filled : Set Nat) (s : ServerState) : Prop where
  file : List.FilledFrom 0 c filled s.handle.fp.content
  receiving : ∀ item ∈ s.receiving.inHand, Backed c (InFile c filled) item.seqNo item.flag
  queue : ∀ item ∈ s.seqQueue, Backed c (InFile c filled) item.seqNo item.flag
  sequencing : ∀ item ∈ s.sequencing.inHand, Backed c (InFile c filled) item.seqNo item.flag

theorem ServerBacked.mono_items {c : List UInt8} {filled more : Set Nat} {items : List SequencingQueueItem}
    (backed : ∀ item ∈ items, Backed c (InFile c filled) item.seqNo item.flag) (sub : filled ⊆ more) :
    ∀ item ∈ items, Backed c (InFile c more) item.seqNo item.flag :=
  fun item member => (backed item member).mono fun _ covered => covered.trans sub

section Server

variable {c : List UInt8} {filled : Set Nat} {s : ServerState}

/-- A save writes a prefix of its packet's bytes at its packet's place, and
reports ACK only when it has written them all. -/
theorem ServerBacked.save (backed : ServerBacked c filled s) (short : c.length < 2 ^ 32) {i : Nat}
    (within : i < segmentCount c) {io : SaveIo} {thread : ReceivingThread} {handle : FileIoPartitionHandle}
    (received : receivingThreadReceive (segment c i).wire io s.receiving s.handle = .ok (thread, handle)) :
    ∃ more, filled ⊆ more ∧ ServerBacked c more { s with receiving := thread, handle } := by
  obtain ⟨same, result, saving, pushing⟩ := receivingThreadReceive_segment received
  obtain ⟨result', n, handle', saving', _, whole, _, file⟩ := save_segment short within same backed.file io
  cases saving.symm.trans saving'
  have sub := Set.subset_union_left (s := filled) (t := Set.Ico (udpPacketDataSize * i) (udpPacketDataSize * i + n))
  refine ⟨_, sub, file, fun item member => ?_, ServerBacked.mono_items backed.queue sub,
    ServerBacked.mono_items backed.sequencing sub⟩
  have item_eq : item = savedItem thread.rcvPkt result := by
    rw [ReceivingThread.inHand, pushing] at member
    exact List.mem_singleton.mp member
  subst item_eq
  rw [savedItem_seqNo]
  obtain ⟨_, seqNo, -⟩ := same.data_eq rfl
  cases result with
  | false => exact .nack _
  | true =>
    refine ⟨show ucpFlagAck < 256 by decide, fun _ => ⟨i, within, seqNo, ?_⟩⟩
    rw [InFile, segment_covers short within, ← whole rfl]
    exact Set.subset_union_right

/-- A step of `sequencing_thread` sends and hands on only what it has been given. -/
theorem ServerBacked.sequence (backed : ServerBacked c filled s) {thread : SequencingThread}
    {seqQueue : List SequencingQueueItem} {sent : Option (UInt32 × UInt32)}
    (effect : SequencingEffect s.sequencing s.seqQueue thread seqQueue sent) :
    ServerBacked c filled { s with sequencing := thread, seqQueue } ∧
      ∀ control, sent = some control → Backed c (InFile c filled) control.1 control.2 := by
  have idle {thread : SequencingThread} {seqQueue : List SequencingQueueItem} (nothing : thread.inHand = [])
      (sub : ∀ item ∈ seqQueue, item ∈ s.seqQueue) :
      ServerBacked c filled { s with sequencing := thread, seqQueue } := by
    refine ⟨backed.file, backed.receiving, fun item member => backed.queue item (sub item member), ?_⟩
    intro item member
    rw [nothing] at member
    cases member
  have silent : ∀ control, (none : Option (UInt32 × UInt32)) = some control →
      Backed c (InFile c filled) control.1 control.2 := fun _ sent => by cases sent
  cases effect with
  | tested atTest =>
    exact ⟨idle (SequencingThread.inHand_tested ..) fun item member => member, silent⟩
  | @popped item rest atPop list =>
    refine ⟨⟨backed.file, backed.receiving, fun item' member => ?_, fun item' member => ?_⟩, silent⟩
    · exact backed.queue item' (list ▸ List.mem_cons_of_mem _ member)
    · obtain rfl := List.mem_singleton.mp member
      exact backed.queue item (list ▸ List.mem_cons_self ..)
  | idle atPop list => exact ⟨idle rfl fun item member => member, silent⟩
  | replied atReply =>
    have inHand := backed.sequencing
    rw [SequencingThread.inHand, atReply] at inHand
    refine ⟨⟨backed.file, backed.receiving, backed.queue, inHand⟩, fun control sent => ?_⟩
    cases sent
    exact inHand _ (List.mem_singleton_self _)
  | added atAdd => exact ⟨idle rfl fun item member => member, silent⟩
  | reported atMissing =>
    refine ⟨idle rfl fun item member => member, fun control sent => ?_⟩
    cases sent
    exact .nack _
  | rested atMissing => exact ⟨idle rfl fun item member => member, silent⟩
  | finished atFin =>
    refine ⟨idle rfl fun item member => member, fun control sent => ?_⟩
    cases sent
    exact .fin _

/-- Every step of the server keeps what has been written, and backs what it sends. -/
theorem ServerBacked.step (backed : ServerBacked c filled s) (short : c.length < 2 ^ 32)
    {arrives : List UInt8 → Prop} (drawn : ∀ datagram, arrives datagram → SegmentDatagram c datagram)
    {e : ServerEvent} {s' : ServerState} (step : ServerStep arrives s e s') :
    ∃ more, filled ⊆ more ∧ ServerBacked c more s' ∧
      ∀ seqNo flag, e = .sent seqNo flag → Backed c (InFile c more) seqNo flag := by
  have nothing {thread : ReceivingThread} (returned : thread.inHand = []) :
      ∀ item ∈ thread.inHand, Backed c (InFile c filled) item.seqNo item.flag := by
    intro item member
    rw [returned] at member
    cases member
  cases step with
  | save arrived waiting received pushing =>
    obtain ⟨i, within, rfl⟩ := drawn _ arrived
    obtain ⟨more, sub, next⟩ := backed.save short within received
    exact ⟨more, sub, next, fun _ _ sent => by cases sent⟩
  | ignore arrived waiting received other =>
    obtain ⟨i, within, rfl⟩ := drawn _ arrived
    obtain ⟨more, sub, next⟩ := backed.save short within received
    exact ⟨more, sub, next, fun _ _ sent => by cases sent⟩
  | receiveError waiting =>
    exact ⟨filled, subset_rfl, ⟨backed.file, nothing rfl, backed.queue, backed.sequencing⟩,
      fun _ _ sent => by cases sent⟩
  | @push item thread seqQueue pushing pushed =>
    cases pushed
    have inHand := backed.receiving
    rw [ReceivingThread.inHand, pushing] at inHand
    refine ⟨filled, subset_rfl, ⟨backed.file, nothing ?_, fun item' member => ?_, backed.sequencing⟩,
      fun _ _ sent => by cases sent⟩
    · exact receivingThreadPush_inHand item s.receiving s.seqQueue
    · rcases List.mem_append.mp member with old | new
      · exact backed.queue item' old
      · obtain rfl := List.mem_singleton.mp new
        exact inHand item (List.mem_singleton_self item)
  | @sequence thread seqQueue sent taken =>
    obtain ⟨next, sends⟩ := backed.sequence (sequencingThreadStep_iff.mp taken)
    refine ⟨filled, subset_rfl, next, fun seqNo flag event => ?_⟩
    cases sent with
    | none => cases event
    | some control =>
      cases event
      exact sends _ rfl
  | cancel returned =>
    exact ⟨filled, subset_rfl, ⟨backed.file, nothing rfl, backed.queue, backed.sequencing⟩,
      fun _ _ sent => by cases sent⟩

end Server

end UCP
