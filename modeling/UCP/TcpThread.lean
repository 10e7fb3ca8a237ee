import UCP.Startup

namespace UCP

/-- What a call of a tick does to the windows: each segment goes to
`on_ack_received`, over what its packet holds before. -/
def handleCall (rspPkt : Int → UcpPacket) (windows : ClientWindows) : TcpCall → Except MemFault ClientWindows
  | .accept _ => pure windows
  | .receive childSd _ rx =>
    rx.foldlM (fun windows rx => onAckReceived windows rx.sgmnt (rspPkt childSd)) windows

/-- What a call of a tick is to the rest of the world. -/
def TcpCall.act (peer : Int → UInt32) (accepted : TcpAccepted) (read : Int → ReadResult) :
    TcpCall → Option ThreadAct
  | accept answer => if answer then some (.accept (peer accepted.newSd)) else none
  | receive childSd closed _ =>
    match read childSd with
    | .bytes incoming _ => some (if closed = [] then .read (peer childSd) incoming else .close (peer childSd))
    | .error => none

/-- The calls of a tick one after the other, with what they do to the windows;
other threads may act on the windows in between. -/
inductive CallsHandled (rspPkt : Int → UcpPacket) (act : TcpCall → Option ThreadAct) :
    ClientWindows → List TcpCall → List (Option ThreadAct) → ClientWindows → Prop
  | done {windows} : CallsHandled rspPkt act windows [] [] windows
  | others {windows calls acts last} (windows' : ClientWindows) :
      CallsHandled rspPkt act windows' calls acts last →
      CallsHandled rspPkt act windows calls (none :: acts) last
  | call {windows windows' call calls acts last} : handleCall rspPkt windows call = .ok windows' →
      CallsHandled rspPkt act windows' calls acts last →
      CallsHandled rspPkt act windows (call :: calls) ((act call).toList.map some ++ acts) last

/-- The operating system hands out a descriptor that is not open, and a host
connects to a thread once. -/
def Admits (server : TcpServer) (peer : Int → UInt32) (accepted : TcpAccepted) : Prop :=
  0 ≤ accepted.newSd → accepted.newSd ∉ server.serverFdSet.members ∧
    ∀ sd ∈ server.serverFdSet.members, sd ≠ server.sd → peer sd ≠ peer accepted.newSd

/-- A `block_thread` with the TCP server itself; `peer` tells which host is at the
other end of a descriptor. -/
structure TcpThread where
  server : TcpServer
  peer : Int → UInt32
  windows : ClientWindows
  stage : BlockThreadStage
  client : ClientPc
  handle : FileIoPartitionHandle

/-- A `block_thread` whose server has just been started. -/
def tcpThreadStart (server : TcpServer) (peer : Int → UInt32) (windows : ClientWindows) (c : List UInt8) :
    TcpThread where
  server := server
  peer := peer
  windows := windows
  stage := .sendMetadata
  client := .get
  handle := openPartition c

/-- One step of a `block_thread` with its TCP server, labelled with what it is to
the rest of the world. The windows belong to all threads, and descriptors that the
server does not have may come to stand for other hosts. -/
inductive TcpThreadStep (ctx : ThreadContext) (s : TcpThread) : List (Option ThreadAct) → TcpThread → Prop
  | others (windows : ClientWindows) : TcpThreadStep ctx s [none] { s with windows }
  | peers (peer : Int → UInt32) : (∀ sd ∈ s.server.serverFdSet.members, peer sd = s.peer sd) →
      TcpThreadStep ctx s [] { s with peer }
  | metadata {packet bytes} (buf : Buffer udpPacketSize) : s.stage = .sendMetadata →
      ucpPacketInitMetadata ctx.dstFilename ctx.dstFilename.length (UInt8.ofNat ctx.idx) s.handle.partSize =
        .ok packet →
      sendDatagram packet buf = .ok bytes →
      TcpThreadStep ctx s [some (.send bytes)] { s with stage := .accept }
  | refused {accepted server} : s.stage = .accept → tcpServerAccept s.server accepted = .ok (false, server) →
      TcpThreadStep ctx s [] { s with server }
  | accept {accepted server} : s.stage = .accept → Admits s.server s.peer accepted →
      tcpServerAccept s.server accepted = .ok (true, server) →
      TcpThreadStep ctx s [some (.accept (s.peer accepted.newSd))] { s with server, stage := .loop }
  | get {next windows handle} : s.stage = .loop → s.client = .get →
      getNextPacket s.windows s.handle = .ok (next, windows, handle) →
      TcpThreadStep ctx s [some .silent] { s with windows, client := next.elim (.left true) .send, handle }
  | send {packet bytes} (buf : Buffer udpPacketSize) : s.stage = .loop → s.client = .send packet →
      sendDatagram packet buf = .ok bytes →
      TcpThreadStep ctx s [some (.send bytes)] { s with client := .append packet }
  | append {packet} : s.stage = .loop → s.client = .append packet →
      TcpThreadStep ctx s [some .silent] { s with windows := appendInFlight s.windows packet, client := .tick }
  | tick {ready accepted read server calls acts windows} (rspPkt : Int → UcpPacket) : s.stage = .loop →
      s.client = .tick → ready.members ⊆ s.server.serverFdSet.members → Admits s.server s.peer accepted →
      tcpServerTick s.server ready.members.card ready accepted read = .ok (server, calls) →
      CallsHandled rspPkt (TcpCall.act s.peer accepted read) s.windows calls acts windows →
      TcpThreadStep ctx s (acts ++ [some .silent])
        { s with server, windows, client := afterTick windows }

/-- The steps of a `block_thread` among those of others, which act on the windows. -/
inductive SharedThreadStep (ctx : ThreadContext) :
    ClientWindows × ThreadState → Option ThreadAct → ClientWindows × ThreadState → Prop
  | others {windows t} (windows' : ClientWindows) : SharedThreadStep ctx (windows, t) none (windows', t)
  | own {windows t act windows' t'} : BlockThreadStep ctx windows t act windows' t' →
      SharedThreadStep ctx (windows, t) (some act) (windows', t')

end UCP
