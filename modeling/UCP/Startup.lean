import UCP.ClientThreads
import UCP.System
import UCP.TcpServer

namespace UCP

def clientBasePort : Nat := 6341
def serverBasePort : Nat := 6342

/-- `AF_INET`. -/
def afInet : UInt16 := 2

/-- `htons` and `ntohs`: on a little-endian machine the bytes change places. -/
def htons (port : UInt16) : UInt16 := UInt16.ofNat (port.toNat % 256 * 256 + port.toNat / 256)
def ntohs (port : UInt16) : UInt16 := htons port

theorem htons_toNat (port : UInt16) : (htons port).toNat = port.toNat % 256 * 256 + port.toNat / 256 := by
  have small := port.toNat_lt
  exact UInt16.toNat_ofNat_of_lt' (show _ < 65536 by omega)

theorem htons_ntohs (port : UInt16) : htons (ntohs port) = port := by
  have small := port.toNat_lt
  rw [← UInt16.toNat_inj, ntohs, htons_toNat, htons_toNat]
  omega

theorem htons_inj {a b : UInt16} (same : htons a = htons b) : a = b := by
  rw [← htons_ntohs a, ← htons_ntohs b, ntohs, ntohs, same]

/-- Where thread `idx` of the client on a host sends from, and where it listens
for its control connection. -/
def clientAddress (host : UInt32) (idx : Fin numThreads) : SockaddrIn :=
  ⟨afInet, htons (UInt16.ofNat (clientBasePort + idx)), host⟩

/-- Thread 0 of a client. -/
def firstThread : Fin numThreads := ⟨0, by decide⟩

/-- Where thread `idx` sends to. The server binds the first of these ports. -/
def serverAddress (host : UInt32) (idx : Fin numThreads) : SockaddrIn :=
  ⟨afInet, htons (UInt16.ofNat (serverBasePort + idx)), host⟩

section Address

variable {host host' : UInt32} {idx idx' : Fin numThreads}

theorem port_inj {base : Nat} (room : base + numThreads ≤ 2 ^ 16)
    (same : htons (UInt16.ofNat (base + idx)) = htons (UInt16.ofNat (base + idx'))) : idx = idx' := by
  have nats := congrArg UInt16.toNat (htons_inj same)
  have small := idx.isLt
  have small' := idx'.isLt
  rw [UInt16.toNat_ofNat_of_lt' (show _ < 65536 by omega), UInt16.toNat_ofNat_of_lt' (show _ < 65536 by omega)] at nats
  exact Fin.ext (by omega)

theorem clientAddress_inj (same : clientAddress host idx = clientAddress host' idx') :
    host = host' ∧ idx = idx' := by
  simp only [clientAddress, SockaddrIn.mk.injEq, true_and] at same
  exact ⟨same.2, port_inj (by decide) same.1⟩

theorem serverAddress_inj (same : serverAddress host idx = serverAddress host' idx') :
    host = host' ∧ idx = idx' := by
  simp only [serverAddress, SockaddrIn.mk.injEq, true_and] at same
  exact ⟨same.2, port_inj (by decide) same.1⟩

end Address

/-- A datagram on its way, with what its headers say. -/
structure UdpDatagram where
  source : SockaddrIn
  destination : SockaddrIn
  bytes : List UInt8

/-- What a `block_thread` finds in its context. `main` of the client stores the
destination in the context of thread 0 only. The pointers in the other contexts
are what the memory happens to hold, and `inet_addr` and `strlen` follow them:
this is what those threads find when that does not kill the process. -/
structure ThreadContext where
  idx : Fin numThreads
  dstIp : UInt32
  dstFilename : List UInt8

/-- How far a `block_thread` has come: on its way to the send loop, in the loop
(or behind it, as its `ClientPc` tells), or out of action. -/
inductive BlockThreadStage
  | createSocket
  | startServer
  | sendMetadata
  | accept
  | loop
  | failed
  deriving DecidableEq, Repr

/-- A `block_thread`. Its TCP server counts as listening when `listen` has
succeeded; the children are the connections accepted, by the hosts at their
other ends. -/
structure ThreadState where
  stage : BlockThreadStage
  listening : Bool
  children : List UInt32
  client : ClientPc
  handle : FileIoPartitionHandle

def threadStart (c : List UInt8) : ThreadState where
  stage := .createSocket
  listening := false
  children := []
  client := .get
  handle := openPartition c

/-- What a step of a `block_thread` asks of the rest of the world. -/
inductive ThreadAct
  | silent
  | send (bytes : List UInt8)
  | accept (server : UInt32)
  | read (server : UInt32) (incoming : List UInt8)
  | close (server : UInt32)

/-- One step of a `block_thread`. When `tcp_server_start` has failed, the code
follows a null or freed pointer; where that does not kill the process, the thread
is lost. A tick accepts, reads and closes as often as it likes, where the code
serves each descriptor at most once. -/
inductive BlockThreadStep (ctx : ThreadContext) (windows : ClientWindows) (t : ThreadState) :
    ThreadAct → ClientWindows → ThreadState → Prop
  | noSocket : t.stage = .createSocket → BlockThreadStep ctx windows t .silent windows { t with stage := .failed }
  | socket : t.stage = .createSocket → BlockThreadStep ctx windows t .silent windows { t with stage := .startServer }
  | noServer : t.stage = .startServer → BlockThreadStep ctx windows t .silent windows { t with stage := .failed }
  | server (listening : Bool) : t.stage = .startServer →
      BlockThreadStep ctx windows t .silent windows { t with stage := .sendMetadata, listening }
  | metadata {packet bytes} (buf : Buffer udpPacketSize) : t.stage = .sendMetadata →
      ucpPacketInitMetadata ctx.dstFilename ctx.dstFilename.length (UInt8.ofNat ctx.idx) t.handle.partSize = .ok packet →
      sendDatagram packet buf = .ok bytes →
      BlockThreadStep ctx windows t (.send bytes) windows { t with stage := .accept }
  | accept (server : UInt32) : t.stage = .accept → t.listening = true → server ∉ t.children →
      BlockThreadStep ctx windows t (.accept server) windows
        { t with stage := .loop, children := server :: t.children }
  | get {next windows' handle} : t.stage = .loop → t.client = .get →
      getNextPacket windows t.handle = .ok (next, windows', handle) →
      BlockThreadStep ctx windows t .silent windows' { t with client := next.elim (.left true) .send, handle }
  | send {packet bytes} (buf : Buffer udpPacketSize) : t.stage = .loop → t.client = .send packet →
      sendDatagram packet buf = .ok bytes →
      BlockThreadStep ctx windows t (.send bytes) windows { t with client := .append packet }
  | append {packet} : t.stage = .loop → t.client = .append packet →
      BlockThreadStep ctx windows t .silent (appendInFlight windows packet) { t with client := .tick }
  | tickAccept (server : UInt32) : t.stage = .loop → t.client = .tick → t.listening = true → server ∉ t.children →
      BlockThreadStep ctx windows t (.accept server) windows { t with children := server :: t.children }
  | tickRead {server incoming windows'} (rspPkt : UcpPacket) : t.stage = .loop → t.client = .tick →
      server ∈ t.children → incoming ≠ [] → incoming.length ≤ tcpSegmentSize →
      clientReceive windows incoming rspPkt = .ok windows' →
      BlockThreadStep ctx windows t (.read server incoming) windows' t
  | tickClose {server} : t.stage = .loop → t.client = .tick → server ∈ t.children →
      BlockThreadStep ctx windows t (.close server) windows { t with children := t.children.erase server }
  | tickEnd : t.stage = .loop → t.client = .tick →
      BlockThreadStep ctx windows t .silent windows { t with client := afterTick windows }

/-- The disk of a server: whether it lets a file be created, and what it takes
of each write that fills it with zeros. -/
structure Disk where
  fopen : Bool
  accepts : Nat → Nat

/-- What `main` of the server does with its first packet: the name of the file
that it opens, if any, and the partition handle, which `handle` stands for
before. -/
def openDestination (disk : Disk) (handle : FileIoPartitionHandle) (rcvPkt : UcpPacket) :
    Except MemFault (Option (List UInt8) × FileIoPartitionHandle) :=
  if rcvPkt.type = ucpPacketTypeMetadata then do
    let name ← Mem.loadString rcvPkt.metadataPacket.desinationName.bytes
    if disk.fopen then
      pure (some name, (fileIoOpenFileOfSize disk.accepts handle rcvPkt.metadataPacket.partSize.toNat).2)
    else pure (none, handle)
  else pure (none, handle)

/-- Where `main` of the server stands; while it serves, its two threads run. -/
inductive DaemonPc
  | bind
  | receive
  | connect
  | serve
  | exited
  deriving DecidableEq, Repr

/-- A server process: the address that its first datagram came from, the name of
its file, its two threads, and the bytes of its connection that have not been
read at the other end. -/
structure DaemonState where
  pc : DaemonPc
  client : Option SockaddrIn
  file : Option (List UInt8)
  connected : Bool
  server : ServerState
  stream : List UInt8

/-- `handle` is what the uninitialised handle of `main` happens to hold. -/
def daemonStart (handle : FileIoPartitionHandle) : DaemonState where
  pc := .bind
  client := none
  file := none
  connected := false
  server := serverStart handle
  stream := []

/-- The address that `main` of the server connects back to. -/
def replyAddress (source : SockaddrIn) : SockaddrIn := { source with sinPort := htons (ntohs source.sinPort) }

theorem replyAddress_eq (source : SockaddrIn) : replyAddress source = source := by
  rw [replyAddress, htons_ntohs]

/-- What a step of a server asks of the rest of the world. -/
inductive DaemonAct
  | silent
  | connect
  deriving DecidableEq, Repr

/-- One step of a server process; `arrives` tells which datagrams it may receive
next. Without an open file the first save has no defined behaviour, and the
threads are not followed any further. -/
inductive DaemonStep (disk : Disk) (arrives : UdpDatagram → Prop) (d : DaemonState) : DaemonAct → DaemonState → Prop
  | noSocket : d.pc = .bind → DaemonStep disk arrives d .silent { d with pc := .exited }
  | socket : d.pc = .bind → DaemonStep disk arrives d .silent { d with pc := .receive }
  | receiveError : d.pc = .receive → DaemonStep disk arrives d .silent { d with pc := .exited }
  | receive {datagram packet file handle} (recvBuffer : Buffer udpPacketSize) (rcvPkt : UcpPacket) :
      d.pc = .receive → arrives datagram →
      ucpPacketDecode (udpSocketReceiveFrom recvBuffer datagram.bytes).2.bytes udpPacketSize rcvPkt = .ok packet →
      openDestination disk d.server.handle packet = .ok (file, handle) →
      DaemonStep disk arrives d .silent
        { d with pc := .connect, client := some (replyAddress datagram.source), file, server := serverStart handle }
  | noConnection : d.pc = .connect → DaemonStep disk arrives d .silent { d with pc := .exited }
  | connect : d.pc = .connect → DaemonStep disk arrives d .connect { d with pc := .serve, connected := true }
  | write {seqNo flag server bytes} (buf : Buffer 10) (data : Buffer tcpSegmentSize) : d.pc = .serve → d.file ≠ none →
      ServerStep (fun bytes => ∃ datagram, arrives datagram ∧ datagram.bytes = bytes) d.server (.sent seqNo flag) server →
      sendCtrlPacket seqNo flag buf data = .ok bytes →
      DaemonStep disk arrives d .silent { d with server, stream := d.stream ++ bytes }
  | serve {e server} : d.pc = .serve → d.file ≠ none →
      ServerStep (fun bytes => ∃ datagram, arrives datagram ∧ datagram.bytes = bytes) d.server e server →
      (∀ seqNo flag, e ≠ .sent seqNo flag) → DaemonStep disk arrives d .silent { d with server }
  | exit : d.pc = .serve → d.server.receiving.pc = .returned → d.server.sequencing.pc = .returned →
      DaemonStep disk arrives d .silent { d with pc := .exited }

end UCP
