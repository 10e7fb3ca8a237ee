import UCP.TcpThread
import UCP.World

namespace UCP

/-- How far a tick has come: what `select` has left in `read_fds`, and the
descriptor that is next. -/
structure TickScan where
  readFds : FdSet
  sd : Int

/-- A `block_thread` with its TCP server, which keeps its connections: `base` has
none. -/
structure TcpBlockThread where
  base : ThreadState
  server : Option TcpServer
  peer : Int → UInt32
  scan : Option TickScan

/-- One step of a `block_thread` with its TCP server; none is a step that nobody
else can tell. A tick is a step for each descriptor, so that what it accepts, reads
and closes meets the rest of the world one by one. A server that does not listen
never gets a connection, and is left out. -/
inductive TcpBlockStep (ctx : ThreadContext) (windows : ClientWindows) (t : TcpBlockThread) :
    Option ThreadAct → ClientWindows → TcpBlockThread → Prop
  | base {act windows' base} : BlockThreadStep ctx windows t.base act windows' base →
      t.base.stage ≠ .startServer → t.base.stage ≠ .accept → t.base.client ≠ .tick →
      TcpBlockStep ctx windows t (some act) windows' { t with base }
  | noServer : t.base.stage = .startServer →
      TcpBlockStep ctx windows t (some .silent) windows { t with base := { t.base with stage := .failed } }
  | notListening : t.base.stage = .startServer → TcpBlockStep ctx windows t (some .silent) windows
      { t with base := { t.base with stage := .sendMetadata, listening := false }, server := none }
  | server {sd server} : t.base.stage = .startServer → tcpServerStart true sd 0 0 = .ok (.server server) →
      TcpBlockStep ctx windows t (some .silent) windows
        { t with base := { t.base with stage := .sendMetadata, listening := true }, server := some server }
  | peers {server} (peer : Int → UInt32) : t.server = some server →
      (∀ sd ∈ server.serverFdSet.members, peer sd = t.peer sd) →
      TcpBlockStep ctx windows t none windows { t with peer }
  | accept {server accepted server'} : t.base.stage = .accept → t.server = some server →
      Admits server t.peer accepted → tcpServerAccept server accepted = .ok (true, server') →
      TcpBlockStep ctx windows t (some (.accept (t.peer accepted.newSd))) windows
        { t with base := { t.base with stage := .loop }, server := some server' }
  | select {server} (readFds : FdSet) : t.base.stage = .loop → t.base.client = .tick → t.scan = none →
      t.server = some server → readFds.members ⊆ server.serverFdSet.members →
      TcpBlockStep ctx windows t none windows { t with scan := some ⟨readFds, server.sd⟩ }
  | round {scan server accepted read server' calls windows'} (rspPkt : Int → UcpPacket) : t.scan = some scan →
      t.server = some server → scan.sd ≤ server.maxSd → (scan.sd = server.sd → Admits server t.peer accepted) →
      tcpServerRound scan.readFds accepted read server scan.sd = .ok (server', calls) →
      calls.foldlM (handleCall rspPkt) windows = .ok windows' →
      TcpBlockStep ctx windows t (calls.filterMap (TcpCall.act t.peer accepted read)).head? windows'
        { t with server := some server', scan := some { scan with sd := scan.sd + 1 } }
  | tickEnd {scan server} : t.scan = some scan → t.server = some server → server.maxSd < scan.sd →
      TcpBlockStep ctx windows t (some .silent) windows
        { t with base := { t.base with client := afterTick windows }, scan := none }
  | timeout : t.base.stage = .loop → t.base.client = .tick → t.scan = none →
      TcpBlockStep ctx windows t (some .silent) windows
        { t with base := { t.base with client := afterTick windows } }

/-- All hosts, with the TCP servers of the clients as they are. -/
structure TcpWorld where
  windows : UInt32 → ClientWindows
  threads : UInt32 → Fin numThreads → TcpBlockThread
  daemons : UInt32 → DaemonState
  network : List UdpDatagram

def tcpWorldStart (cfg : Setting) (peer : UInt32 → Fin numThreads → Int → UInt32) : TcpWorld where
  windows _ := clientWindowsInit
  threads host idx := ⟨threadStart (cfg.partition host idx), none, peer host idx, none⟩
  daemons host := daemonStart (cfg.handle host)
  network := []

/-- What the act of a `block_thread` is to the servers and the network, with what
is to be told of it from outside. -/
inductive Outside (cfg : Setting) (host : UInt32) (idx : Fin numThreads) (daemons : UInt32 → DaemonState)
    (network : List UdpDatagram) :
    Option ThreadAct → (UInt32 → DaemonState) → List UdpDatagram → List WorldEvent → Prop
  | internal : Outside cfg host idx daemons network none daemons network []
  | silent : Outside cfg host idx daemons network (some .silent) daemons network [.other]
  | send {bytes} : Outside cfg host idx daemons network (some (.send bytes)) daemons
      (⟨clientAddress host idx, serverAddress (cfg.dstIp host idx) idx, bytes⟩ :: network) [.other]
  | accept {server} : (daemons server).connected = true →
      (daemons server).client = some (clientAddress host idx) →
      Outside cfg host idx daemons network (some (.accept server)) daemons network [.other]
  | read {server incoming rest} : (daemons server).stream = incoming ++ rest →
      Outside cfg host idx daemons network (some (.read server incoming))
        (Function.update daemons server { daemons server with stream := rest }) network
        [.read (daemons server).stream incoming]
  | close {server} : (daemons server).pc = .exited → (daemons server).stream = [] →
      Outside cfg host idx daemons network (some (.close server)) daemons network [.other]

/-- One step of a `block_thread` or of a server on some host, as in the world whose
threads have lists of connections. -/
inductive TcpWorldStep (cfg : Setting) (w : TcpWorld) : List WorldEvent → TcpWorld → Prop
  | thread {host idx act windows t daemons network events} :
      TcpBlockStep (cfg.context host idx) (w.windows host) (w.threads host idx) act windows t →
      Outside cfg host idx w.daemons w.network act daemons network events →
      TcpWorldStep cfg w events
        { windows := Function.update w.windows host windows
          threads := Function.update w.threads host (Function.update (w.threads host) idx t)
          daemons, network }
  | daemon {host d} : DaemonStep (cfg.disk host)
        (fun datagram => datagram ∈ w.network ∧ datagram.destination = serverAddress host firstThread)
        (w.daemons host) .silent d →
      TcpWorldStep cfg w [.other] { w with daemons := Function.update w.daemons host d }
  | connect {host d client idx} : DaemonStep (cfg.disk host)
        (fun datagram => datagram ∈ w.network ∧ datagram.destination = serverAddress host firstThread)
        (w.daemons host) .connect d →
      (w.daemons host).client = some (clientAddress client idx) → (w.threads client idx).base.listening = true →
      TcpWorldStep cfg w [.other] { w with daemons := Function.update w.daemons host d }

end UCP
