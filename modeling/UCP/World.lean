import UCP.AckSaved
import UCP.DestinationName
import UCP.Startup

namespace UCP

/-- What the hosts start with, each with one client and one server. -/
structure Setting where
  partition : UInt32 → Fin numThreads → List UInt8
  dstIp : UInt32 → Fin numThreads → UInt32
  dstFilename : UInt32 → Fin numThreads → List UInt8
  disk : UInt32 → Disk
  handle : UInt32 → FileIoPartitionHandle

def Setting.context (cfg : Setting) (host : UInt32) (idx : Fin numThreads) : ThreadContext :=
  ⟨idx, cfg.dstIp host idx, cfg.dstFilename host idx⟩

/-- All hosts, and every datagram ever sent. -/
structure World where
  windows : UInt32 → ClientWindows
  threads : UInt32 → Fin numThreads → ThreadState
  daemons : UInt32 → DaemonState
  network : List UdpDatagram

def worldStart (cfg : Setting) : World where
  windows _ := clientWindowsInit
  threads host idx := threadStart (cfg.partition host idx)
  daemons host := daemonStart (cfg.handle host)
  network := []

def World.setThread (w : World) (host : UInt32) (idx : Fin numThreads) (windows : ClientWindows) (t : ThreadState) :
    World :=
  { w with
    windows := Function.update w.windows host windows
    threads := Function.update w.threads host (Function.update (w.threads host) idx t) }

def World.setDaemon (w : World) (host : UInt32) (d : DaemonState) : World :=
  { w with daemons := Function.update w.daemons host d }

/-- What the socket of the server on a host may receive: any datagram ever sent
there, any number of times or never. -/
def World.ArrivesAt (w : World) (host : UInt32) (datagram : UdpDatagram) : Prop :=
  datagram ∈ w.network ∧ datagram.destination = serverAddress host firstThread

/-- What is to be told of a step from outside: a read from a control connection,
with the unread bytes. -/
inductive WorldEvent
  | read (unread incoming : List UInt8)
  | other

/-- One step of a `block_thread` or of a server on some host. -/
inductive WorldStep (cfg : Setting) (w : World) : WorldEvent → World → Prop
  | silent {host idx windows t} :
      BlockThreadStep (cfg.context host idx) (w.windows host) (w.threads host idx) .silent windows t →
      WorldStep cfg w .other (w.setThread host idx windows t)
  | send {host idx windows t bytes} :
      BlockThreadStep (cfg.context host idx) (w.windows host) (w.threads host idx) (.send bytes) windows t →
      WorldStep cfg w .other { w.setThread host idx windows t with network :=
        ⟨clientAddress host idx, serverAddress (cfg.dstIp host idx) idx, bytes⟩ :: w.network }
  | accept {host idx windows t server} :
      BlockThreadStep (cfg.context host idx) (w.windows host) (w.threads host idx) (.accept server) windows t →
      (w.daemons server).connected = true → (w.daemons server).client = some (clientAddress host idx) →
      WorldStep cfg w .other (w.setThread host idx windows t)
  | read {host idx windows t server incoming rest} :
      BlockThreadStep (cfg.context host idx) (w.windows host) (w.threads host idx) (.read server incoming) windows t →
      (w.daemons server).stream = incoming ++ rest →
      WorldStep cfg w (.read (w.daemons server).stream incoming)
        ((w.setThread host idx windows t).setDaemon server { w.daemons server with stream := rest })
  | close {host idx windows t server} :
      BlockThreadStep (cfg.context host idx) (w.windows host) (w.threads host idx) (.close server) windows t →
      (w.daemons server).pc = .exited → (w.daemons server).stream = [] →
      WorldStep cfg w .other (w.setThread host idx windows t)
  | daemon {host d} : DaemonStep (cfg.disk host) (w.ArrivesAt host) (w.daemons host) .silent d →
      WorldStep cfg w .other (w.setDaemon host d)
  | connect {host d client idx} : DaemonStep (cfg.disk host) (w.ArrivesAt host) (w.daemons host) .connect d →
      (w.daemons host).client = some (clientAddress client idx) → (w.threads client idx).listening = true →
      WorldStep cfg w .other (w.setDaemon host d)

/-- A run of the whole world, in any interleaving. -/
def WorldRun (cfg : Setting) : List WorldEvent → World → Prop := Run (WorldStep cfg) (worldStart cfg)

section Frame

variable {w : World} {host host' : UInt32} {idx idx' : Fin numThreads} {windows : ClientWindows} {t : ThreadState}
  {d : DaemonState}

@[simp] theorem World.setThread_daemons : (w.setThread host idx windows t).daemons = w.daemons := rfl

@[simp] theorem World.setThread_network : (w.setThread host idx windows t).network = w.network := rfl

@[simp] theorem World.setDaemon_windows : (w.setDaemon host d).windows = w.windows := rfl

@[simp] theorem World.setDaemon_threads : (w.setDaemon host d).threads = w.threads := rfl

@[simp] theorem World.setDaemon_network : (w.setDaemon host d).network = w.network := rfl

theorem World.setThread_windows : (w.setThread host idx windows t).windows host' =
    if host' = host then windows else w.windows host' := Function.update_apply ..

theorem World.setThread_threads : (w.setThread host idx windows t).threads host' idx' =
    if host' = host ∧ idx' = idx then t else w.threads host' idx' := by
  rw [setThread]
  by_cases sameHost : host' = host
  · subst sameHost
    simp only [Function.update_self, Function.update_apply, true_and]
  · simp only [Function.update_apply, sameHost, false_and, if_false]

theorem World.setThread_self : (w.setThread host idx windows t).threads host idx = t := by
  rw [setThread_threads, if_pos ⟨rfl, rfl⟩]

theorem World.setThread_windows_self : (w.setThread host idx windows t).windows host = windows :=
  Function.update_self ..

theorem World.setDaemon_self : (w.setDaemon host d).daemons host = d := Function.update_self ..

theorem World.setDaemon_daemons :
    (w.setDaemon host d).daemons host' = if host' = host then d else w.daemons host' :=
  Function.update_apply ..

end Frame

/-- The metadata packet of a thread with this context and partition. -/
def IsMetadata (ctx : ThreadContext) (c bytes : List UInt8) : Prop :=
  ∃ packet, ucpPacketInitMetadata ctx.dstFilename ctx.dstFilename.length (UInt8.ofNat ctx.idx)
    (UInt32.ofNat c.length) = .ok packet ∧ packet.wire = bytes

/-- All packets that the thread holds or has in hand come from its partition. -/
def Drawn (c : List UInt8) (windows : ClientWindows) (t : ThreadState) : Prop :=
  ∃ k, ReadHandle c k t.handle ∧ ∀ p ∈ windows.held ++ t.client.inHand, ∃ i, i < k ∧ segment c i = p

section Thread

variable {ctx : ThreadContext} {windows windows' : ClientWindows} {t t' : ThreadState} {act : ThreadAct}
  {c : List UInt8}

/-- Before it is in its loop a thread does nothing but send its metadata packet,
until it accepts a connection. -/
theorem BlockThreadStep.before_loop (step : BlockThreadStep ctx windows t act windows' t')
    (before : t.stage ≠ .loop)
    (handle : t.handle = openPartition c) :
    windows' = windows ∧ t'.handle = t.handle ∧ t'.client = t.client ∧
      ((∃ server, act = .accept server ∧ t'.stage = .loop ∧ t'.children = server :: t.children) ∨
        (t'.stage ≠ .loop ∧ t'.children = t.children ∧
          (act = .silent ∨ ∃ bytes, act = .send bytes ∧ IsMetadata ctx c bytes))) := by
  have waits {stage : BlockThreadStage} (going : stage ≠ .loop) :
      stage ≠ .loop ∧ t.children = t.children ∧
        (ThreadAct.silent = .silent ∨ ∃ bytes, ThreadAct.silent = .send bytes ∧ IsMetadata ctx c bytes) :=
    ⟨going, rfl, .inl rfl⟩
  cases step with
  | noSocket => exact ⟨rfl, rfl, rfl, .inr (waits nofun)⟩
  | socket => exact ⟨rfl, rfl, rfl, .inr (waits nofun)⟩
  | noServer => exact ⟨rfl, rfl, rfl, .inr (waits nofun)⟩
  | server => exact ⟨rfl, rfl, rfl, .inr (waits nofun)⟩
  | @metadata packet bytes buf atMetadata made sent =>
    rw [handle] at made
    obtain ⟨_, made', isMetadata, _⟩ := ucpPacketInitMetadata_eq ctx.dstFilename ctx.dstFilename.length
      (UInt8.ofNat ctx.idx) (UInt32.ofNat c.length)
    cases made.symm.trans made'
    rw [sendDatagram_eq (.metadata isMetadata)] at sent
    cases sent
    exact ⟨rfl, rfl, rfl, .inr ⟨nofun, rfl, .inr ⟨_, rfl, _, made, rfl⟩⟩⟩
  | accept server => exact ⟨rfl, rfl, rfl, .inl ⟨server, rfl, rfl, rfl⟩⟩
  | get inLoop => exact absurd inLoop before
  | send _ inLoop => exact absurd inLoop before
  | append inLoop => exact absurd inLoop before
  | tickAccept _ inLoop => exact absurd inLoop before
  | tickRead _ inLoop => exact absurd inLoop before
  | tickClose inLoop => exact absurd inLoop before
  | tickEnd inLoop => exact absurd inLoop before

/-- A step draws on nothing but the partition. -/
theorem BlockThreadStep.drawn (step : BlockThreadStep ctx windows t act windows' t') (drawn : Drawn c windows t) :
    Drawn c windows' t' := by
  obtain ⟨k, reading, from_partition⟩ := drawn
  cases step with
  | noSocket => exact ⟨k, reading, from_partition⟩
  | socket => exact ⟨k, reading, from_partition⟩
  | noServer => exact ⟨k, reading, from_partition⟩
  | server => exact ⟨k, reading, from_partition⟩
  | metadata => exact ⟨k, reading, from_partition⟩
  | accept => exact ⟨k, reading, from_partition⟩
  | @get next windows' handle _ atGet took =>
    obtain ⟨_, _, _, k', took', reading', origin⟩ := getNextPacket_spec reading windows
    cases took.symm.trans took'
    cases origin with
    | @resend p windows' split _ =>
      refine ⟨k, reading', fun q member => from_partition q (List.mem_append_left _ (split.mem_iff.mpr ?_))⟩
      rcases List.mem_append.mp member with held | inHand
      · exact List.mem_cons_of_mem _ held
      · rw [List.mem_singleton.mp inHand]
        exact List.mem_cons_self ..
    | fresh within =>
      refine ⟨k + 1, reading', fun q member => ?_⟩
      rcases List.mem_append.mp member with held | inHand
      · obtain ⟨i, before, same⟩ := from_partition q (List.mem_append_left _ held)
        exact ⟨i, before.trans (Nat.lt_succ_self k), same⟩
      · exact ⟨k, Nat.lt_succ_self k, (List.mem_singleton.mp inHand).symm⟩
    | exhausted =>
      refine ⟨k, reading', fun q member => from_partition q ?_⟩
      rcases List.mem_append.mp member with held | inHand
      · exact List.mem_append_left _ held
      · cases inHand
  | send _ _ atSend =>
    rw [atSend] at from_partition
    exact ⟨k, reading, from_partition⟩
  | @append packet _ atAppend =>
    rw [atAppend] at from_partition
    refine ⟨k, reading, fun q member => from_partition q ?_⟩
    rcases List.mem_append.mp member with held | inHand
    · rcases List.mem_cons.mp ((appendInFlight_held windows packet).mem_iff.mp held) with rfl | old
      · exact List.mem_append_right _ (List.mem_singleton_self _)
      · exact List.mem_append_left _ old
    · cases inHand
  | tickAccept => exact ⟨k, reading, from_partition⟩
  | tickRead _ _ _ _ _ _ received =>
    refine ⟨k, reading, fun q member => from_partition q ?_⟩
    exact List.mem_append.mpr ((List.mem_append.mp member).imp_left (clientReceive_held received q))
  | tickClose => exact ⟨k, reading, from_partition⟩
  | tickEnd =>
    refine ⟨k, reading, fun q member => from_partition q ?_⟩
    rw [afterTick_inHand, List.append_nil] at member
    exact List.mem_append_left _ member

/-- A thread in its loop stays there, and sends packets that it has drawn. -/
theorem BlockThreadStep.in_loop (step : BlockThreadStep ctx windows t act windows' t') (inLoop : t.stage = .loop)
    (drawn : Drawn c windows t) :
    t'.stage = .loop ∧ (∀ server ∈ t'.children, server ∈ t.children ∨ act = .accept server) ∧
      ∀ bytes, act = .send bytes → SegmentDatagram c bytes := by
  have kept {act : ThreadAct} (quiet : ∀ bytes, act ≠ .send bytes) : t.stage = .loop ∧
      (∀ server ∈ t.children, server ∈ t.children ∨ act = .accept server) ∧
        ∀ bytes, act = .send bytes → SegmentDatagram c bytes :=
    ⟨inLoop, fun _ old => .inl old, fun bytes sends => absurd sends (quiet bytes)⟩
  cases step with
  | noSocket early => rw [inLoop] at early; cases early
  | socket early => rw [inLoop] at early; cases early
  | noServer early => rw [inLoop] at early; cases early
  | server _ early => rw [inLoop] at early; cases early
  | metadata _ early => rw [inLoop] at early; cases early
  | accept _ early => rw [inLoop] at early; cases early
  | get => exact kept nofun
  | @send packet bytes buf _ atSend sent =>
    obtain ⟨k, reading, from_partition⟩ := drawn
    rw [atSend] at from_partition
    obtain ⟨i, before, rfl⟩ := from_partition packet (List.mem_append_right _ (List.mem_singleton_self _))
    rw [sendDatagram_eq (segment_encodable c i)] at sent
    cases sent
    refine ⟨inLoop, fun _ old => .inl old, fun bytes sends => ?_⟩
    cases sends
    exact ⟨i, before.trans_le reading.reached, rfl⟩
  | append => exact kept nofun
  | tickAccept server =>
    refine ⟨inLoop, fun other member => ?_, nofun⟩
    rcases List.mem_cons.mp member with rfl | old
    · exact .inr rfl
    · exact .inl old
  | tickRead => exact kept nofun
  | tickClose =>
    exact ⟨inLoop, fun _ member => .inl (List.mem_of_mem_erase member), nofun⟩
  | tickEnd => exact kept nofun

end Thread

/-- A server has a client from its first datagram on, and keeps it. -/
theorem DaemonStep.effect {disk : Disk} {arrives : UdpDatagram → Prop} {d d' : DaemonState} {act : DaemonAct}
    (step : DaemonStep disk arrives d act d') :
    (d.connected = true → d'.connected = true) ∧
      ((d'.client = d.client ∧ (d'.pc = .bind ∨ d'.pc = .receive → d.pc = .bind ∨ d.pc = .receive)) ∨
        ((d.pc = .bind ∨ d.pc = .receive) ∧ d'.pc = .connect ∧
          ∃ datagram, arrives datagram ∧ d'.client = some datagram.source)) := by
  cases step with
  | noSocket => exact ⟨id, .inl ⟨rfl, by rintro (⟨⟨⟩⟩ | ⟨⟨⟩⟩)⟩⟩
  | socket atBind => exact ⟨id, .inl ⟨rfl, fun _ => .inl atBind⟩⟩
  | receiveError => exact ⟨id, .inl ⟨rfl, by rintro (⟨⟨⟩⟩ | ⟨⟨⟩⟩)⟩⟩
  | @receive datagram packet file handle recvBuffer rcvPkt atReceive arrived =>
    exact ⟨id, .inr ⟨.inr atReceive, rfl, datagram, arrived, by rw [replyAddress_eq]⟩⟩
  | noConnection => exact ⟨id, .inl ⟨rfl, by rintro (⟨⟨⟩⟩ | ⟨⟨⟩⟩)⟩⟩
  | connect => exact ⟨fun _ => rfl, .inl ⟨rfl, by rintro (⟨⟨⟩⟩ | ⟨⟨⟩⟩)⟩⟩
  | write => exact ⟨id, .inl ⟨rfl, id⟩⟩
  | serve => exact ⟨id, .inl ⟨rfl, id⟩⟩
  | exit => exact ⟨id, .inl ⟨rfl, by rintro (⟨⟨⟩⟩ | ⟨⟨⟩⟩)⟩⟩

end UCP
