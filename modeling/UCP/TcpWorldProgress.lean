import UCP.TcpWorldRefinement
import UCP.WorldProgress

namespace UCP

/-- What a step of a thread makes of its connections. -/
def ThreadAct.childrenAfter (act : ThreadAct) (children : List UInt32) : List UInt32 :=
  match act with
  | accept server => server :: children
  | close server => children.erase server
  | silent | send _ | read _ _ => children

/-- A thread between two ticks. Its TCP server listens on descriptor 3 and can have
the server that the thread sends to on descriptor 5. -/
structure TcpBlockThread.Ready (t : TcpBlockThread) (dstIp : UInt32) : Prop where
  idle : t.scan = none
  peer : t.peer = fun _ => dstIp
  early : t.base.stage ≠ .loop → t.base.client = .get
  started : t.base.listening = true → t.server ≠ none
  descriptors : ∀ server, t.server = some server → server.sd = 3 ∧ server.serverFdSet.members ⊆ {5, 3}

section Thread

variable {ctx : ThreadContext} {windows windows' : ClientWindows} {t t' : TcpBlockThread} {a a' : ThreadState}
  {act : ThreadAct} {server : TcpServer} {dstIp : UInt32}

theorem BlockThreadStep.children_eq (step : BlockThreadStep ctx windows a act windows' a') :
    a'.children = act.childrenAfter a.children := by
  cases step <;> rfl

/-- A step that both threads take, each in its way, leaves them the same. -/
theorem TcpBlockStep.mirrors (step : TcpBlockStep ctx windows t (some act) windows' t') (mirrors : t.Mirrors a)
    (taken : BlockThreadStep ctx windows a act windows' a') (base : a' = { t'.base with children := a'.children }) :
    t'.Mirrors a' := by
  obtain ⟨a'', mirrors', ⟨none, _⟩ | ⟨act', same, taken'⟩⟩ := step.mirrored mirrors
  · cases none
  · cases same
    obtain ⟨children, rfl, holds⟩ := mirrors'
    have sameChildren : children = a'.children := taken'.children_eq.trans taken.children_eq.symm
    exact ⟨children, by rw [sameChildren]; exact base, holds⟩

theorem TcpBlockThread.Mirrors.setClient (mirrors : t.Mirrors a) (idle : t.scan = none) (client : ClientPc) :
    TcpBlockThread.Mirrors { t with base := { t.base with client } } { a with client } := by
  obtain ⟨children, rfl, holds⟩ := mirrors
  refine ⟨children, rfl, holds.early, holds.unstarted, fun server started => ?_⟩
  have serves := holds.serves server started
  exact ⟨serves.listening, serves.peers, fun scan scanning => by cases idle.symm.trans scanning⟩

theorem TcpBlockThread.Ready.setBase (ready : t.Ready dstIp) {base : ThreadState}
    (early : base.stage ≠ .loop → base.client = .get) (listening : base.listening = t.base.listening) :
    TcpBlockThread.Ready { t with base } dstIp :=
  ⟨ready.idle, ready.peer, early, fun listens => ready.started (listening.symm.trans listens), ready.descriptors⟩

/-- A thread between two ticks with its server can take what the one with the
connections does without an accept, a read or a close. -/
theorem TcpBlockThread.Ready.lift (ready : t.Ready dstIp) (mirrors : t.Mirrors a)
    (step : BlockThreadStep ctx windows a act windows' a') (quiet : act = .silent ∨ ∃ bytes, act = .send bytes) :
    ∃ t', TcpBlockStep ctx windows t (some act) windows' t' ∧ t'.Mirrors a' ∧ t'.Ready dstIp := by
  obtain ⟨children, rfl, holds⟩ := mirrors
  suffices lifted : ∃ t', TcpBlockStep ctx windows t (some act) windows' t' ∧
      a' = { t'.base with children := a'.children } ∧ t'.Ready dstIp by
    obtain ⟨t', step', base, ready'⟩ := lifted
    exact ⟨t', step', step'.mirrors ⟨children, rfl, holds⟩ step base, ready'⟩
  have before {stage : BlockThreadStage} (here : t.base.stage = stage) (notLoop : stage ≠ .loop) :
      t.base.client = .get := ready.early (here ▸ notLoop)
  cases step with
  | noSocket here =>
    have atGet := before here nofun
    exact ⟨_, .base (.noSocket here) (here ▸ nofun) (here ▸ nofun) (atGet ▸ nofun), rfl,
      ready.setBase (fun _ => atGet) rfl⟩
  | socket here =>
    have atGet := before here nofun
    exact ⟨_, .base (.socket here) (here ▸ nofun) (here ▸ nofun) (atGet ▸ nofun), rfl,
      ready.setBase (fun _ => atGet) rfl⟩
  | noServer here =>
    exact ⟨_, .noServer here, rfl, ready.setBase (fun _ => before here nofun) rfl⟩
  | server listening here =>
    have atGet := before here nofun
    cases listening with
    | false => exact ⟨_, .notListening here, rfl, ready.idle, ready.peer, fun _ => atGet, nofun, nofun⟩
    | true =>
      refine ⟨_, .server here listeningOn3_started, rfl, ready.idle, ready.peer, fun _ => atGet, nofun, ?_⟩
      rintro _ ⟨⟩
      exact ⟨rfl, by decide⟩
  | metadata buf here made sent =>
    have atGet := before here nofun
    exact ⟨_, .base (.metadata buf here made sent) (here ▸ nofun) (here ▸ nofun) (atGet ▸ nofun), rfl,
      ready.setBase (fun _ => atGet) rfl⟩
  | accept server => exact absurd quiet (by simp)
  | get inLoop atGet read =>
    exact ⟨_, .base (.get inLoop atGet read) (inLoop ▸ nofun) (inLoop ▸ nofun) (atGet ▸ nofun), rfl,
      ready.setBase (fun out => absurd inLoop out) rfl⟩
  | send buf inLoop atSend sent =>
    exact ⟨_, .base (.send buf inLoop atSend sent) (inLoop ▸ nofun) (inLoop ▸ nofun) (atSend ▸ nofun), rfl,
      ready.setBase (fun out => absurd inLoop out) rfl⟩
  | append inLoop atAppend =>
    exact ⟨_, .base (.append inLoop atAppend) (inLoop ▸ nofun) (inLoop ▸ nofun) (atAppend ▸ nofun), rfl,
      ready.setBase (fun out => absurd inLoop out) rfl⟩
  | tickAccept server => exact absurd quiet (by simp)
  | tickRead => exact absurd quiet (by simp)
  | tickClose => exact absurd quiet (by simp)
  | tickEnd inLoop atTick =>
    exact ⟨_, .timeout inLoop atTick ready.idle, rfl, ready.setBase (fun out => absurd inLoop out) rfl⟩

/-- The server that the thread sends to can connect to it on descriptor 5. -/
theorem TcpBlockThread.Ready.accept (ready : t.Ready dstIp) (mirrors : t.Mirrors a)
    (waits : a.stage = .accept) (step : BlockThreadStep ctx windows a (.accept dstIp) windows' a') :
    ∃ t', TcpBlockStep ctx windows t (some (.accept dstIp)) windows' t' ∧ t'.Mirrors a' ∧ t'.Ready dstIp := by
  obtain ⟨children, rfl, holds⟩ := mirrors
  have step' := step
  cases step' with
  | tickAccept _ inLoop => cases waits.symm.trans inLoop
  | accept _ _ listening fresh =>
    obtain ⟨server, started⟩ := Option.ne_none_iff_exists'.mp (ready.started listening)
    obtain ⟨sameSd, members⟩ := ready.descriptors server started
    have peers := (holds.serves server started).peers
    have room : TcpAccepted.HasRoom ⟨5, some 1, none⟩ := fun _ => ⟨by decide, Option.some_ne_none 1⟩
    have unused : ∀ sd ∈ server.serverFdSet.members, sd ≠ server.sd → False := by
      intro sd member child
      exact fresh ((peers.mem_iff dstIp).mpr ⟨sd, member, child, by rw [ready.peer]⟩)
    have admits : Admits server t.peer ⟨5, some 1, none⟩ := by
      refine fun _ => ⟨fun member => unused 5 member ?_, fun sd member child => (unused sd member child).elim⟩
      rw [sameSd]
      decide
    obtain ⟨⟨answer, server'⟩, accepting⟩ := tcpServerAccept_isOk server room
    obtain ⟨_, ⟨failed, _⟩ | ⟨_, rfl, sameSd', _, members', _⟩⟩ := tcpServerAccept_eq_ok accepting
    · exact absurd failed (by decide)
    have accepts : TcpBlockStep ctx windows t (some (.accept (t.peer 5))) windows
        { t with base := { t.base with stage := .loop }, server := some server' } :=
      .accept waits started admits accepting
    rw [ready.peer] at accepts
    refine ⟨_, accepts, accepts.mirrors ⟨children, rfl, holds⟩ step rfl, ready.idle, rfl, by simp, by simp, ?_⟩
    rintro _ ⟨⟩
    refine ⟨sameSd'.trans sameSd, ?_⟩
    rw [members']
    exact Finset.insert_subset (Finset.mem_insert_self ..) members

/-- The connection of a thread that sends to a server is on descriptor 5. -/
theorem TcpBlockThread.Ready.connected (ready : t.Ready dstIp) (mirrors : t.Mirrors a) {child : UInt32}
    (member : child ∈ a.children) :
    child = dstIp ∧ ∃ server, t.server = some server ∧ server.sd = 3 ∧ 5 ∈ server.serverFdSet.members := by
  obtain ⟨children, rfl, holds⟩ := mirrors
  cases started : t.server with
  | none =>
    rw [(holds.unstarted started).2] at member
    cases member
  | some server =>
    obtain ⟨sd, registered, isChild, same⟩ := ((holds.serves server started).peers.mem_iff child).mp member
    obtain ⟨sameSd, members⟩ := ready.descriptors server started
    rw [ready.peer] at same
    rcases Finset.mem_insert.mp (members registered) with rfl | listening
    · exact ⟨same.symm, server, rfl, sameSd, registered⟩
    · exact absurd ((Finset.mem_singleton.mp listening).trans sameSd.symm) isChild

/-- A round leaves a descriptor alone that is not ready. -/
theorem TcpBlockStep.skip {scan : TickScan} (scanning : t.scan = some scan) (started : t.server = some server)
    (within : scan.sd ≤ server.maxSd) (inside : 0 ≤ scan.sd ∧ scan.sd < fdSetSize)
    (notReady : scan.sd ∉ scan.readFds.members) :
    TcpBlockStep ctx windows t none windows { t with scan := some { scan with sd := scan.sd + 1 } } := by
  have nothing : Admits server t.peer ⟨-1, none, none⟩ := fun nonneg => absurd nonneg (by decide)
  have ran : tcpServerRound scan.readFds ⟨-1, none, none⟩ (fun _ => .error) server scan.sd = .ok (server, []) := by
    rw [tcpServerRound_eq inside, if_neg notReady]
  have step : TcpBlockStep ctx windows t none windows
      { t with server := some server, scan := some { scan with sd := scan.sd + 1 } } :=
    .round (fun _ => ucpPacketInit 0) scanning started within (fun _ => nothing) ran rfl
  rwa [← started] at step

/-- A round reads from a child that is ready, and hands over what it has read. -/
theorem TcpBlockStep.reads {scan : TickScan} {incoming : List UInt8} {rspPkt : UcpPacket}
    (scanning : t.scan = some scan) (started : t.server = some server) (within : scan.sd ≤ server.maxSd)
    (inside : 0 ≤ scan.sd ∧ scan.sd < fdSetSize) (ready : scan.sd ∈ scan.readFds.members)
    (child : scan.sd ≠ server.sd) (nonempty : incoming ≠ []) (fits : incoming.length ≤ tcpSegmentSize)
    (run : clientReceive windows incoming rspPkt = .ok windows') :
    TcpBlockStep ctx windows t (some (.read (t.peer scan.sd) incoming)) windows'
      { t with scan := some { scan with sd := scan.sd + 1 } } := by
  obtain ⟨sgmnt, made, received⟩ := tcpServerReceive_sgmnt server scan.sd fits nonempty
  have ran : tcpServerRound scan.readFds ⟨-1, none, none⟩ (fun _ => .bytes incoming fits) server scan.sd =
      .ok (server, [.receive scan.sd [] [⟨getEndpoint server scan.sd, sgmnt⟩]]) := by
    rw [tcpServerRound_eq inside, if_pos ready, if_neg child, received]
    rfl
  rw [clientReceive, made] at run
  have acknowledged : onAckReceived windows sgmnt rspPkt = .ok windows' := run
  have handled : [TcpCall.receive scan.sd [] [⟨getEndpoint server scan.sd, sgmnt⟩]].foldlM
      (handleCall fun _ => rspPkt) windows = .ok windows' := by
    simp [handleCall, acknowledged]
  have step : TcpBlockStep ctx windows t (some (.read (t.peer scan.sd) incoming)) windows'
      { t with server := some server, scan := some { scan with sd := scan.sd + 1 } } :=
    .round (fun _ => rspPkt) scanning started within (fun same => absurd same child) ran handled
  rwa [← started] at step

end Thread

/-- The world with a thread, and what is outside the threads, in place of its own. -/
def TcpWorld.put (w : TcpWorld) (host : UInt32) (idx : Fin numThreads) (windows : ClientWindows) (t : TcpBlockThread)
    (daemons : UInt32 → DaemonState) (network : List UdpDatagram) : TcpWorld where
  windows := Function.update w.windows host windows
  threads := Function.update w.threads host (Function.update (w.threads host) idx t)
  daemons := daemons
  network := network

section World

variable {cfg : Setting} {w : TcpWorld} {v v' : World} {host : UInt32} {idx : Fin numThreads} {act : Option ThreadAct}
  {windows windows' : ClientWindows} {t t' : TcpBlockThread} {server : TcpServer}
  {daemons daemons' : UInt32 → DaemonState} {network network' : List UdpDatagram} {events : List WorldEvent}

theorem TcpWorld.put_self : w.put host idx (w.windows host) (w.threads host idx) w.daemons w.network = w := by
  rw [put, Function.update_eq_self, Function.update_eq_self, Function.update_eq_self]

theorem TcpWorld.put_step (step : TcpBlockStep (cfg.context host idx) windows t act windows' t')
    (outside : Outside cfg host idx daemons network act daemons' network' events) :
    TcpWorldStep cfg (w.put host idx windows t daemons network) events
      (w.put host idx windows' t' daemons' network') := by
  have taken : TcpWorldStep cfg (w.put host idx windows t daemons network) events
      ((w.put host idx windows t daemons network).put host idx windows' t' daemons' network') := by
    refine .thread ?_ outside
    simpa only [put, Function.update_self] using step
  simpa only [put, Function.update_idem, Function.update_self] using taken

/-- A tick passes over descriptors that are not ready. -/
theorem TcpWorld.skips {readFds : FdSet} {sd : Int} (n : Nat) (scanning : t.scan = some ⟨readFds, sd⟩)
    (started : t.server = some server) (nonneg : 0 ≤ sd) (within : sd + n ≤ server.maxSd + 1)
    (bounded : server.maxSd < fdSetSize) (notReady : ∀ ready ∈ readFds.members, ready < sd ∨ sd + n ≤ ready) :
    Run (TcpWorldStep cfg) (w.put host idx windows t daemons network) (List.replicate n [])
      (w.put host idx windows { t with scan := some ⟨readFds, sd + n⟩ } daemons network) := by
  induction n with
  | zero =>
    have same : ({ t with scan := some ⟨readFds, sd + (0 : Nat)⟩ } : TcpBlockThread) = t := by
      rw [Int.natCast_zero, Int.add_zero, ← scanning]
    rw [same]
    exact .start
  | succ n ih =>
    have before := ih (by omega) fun ready member => by
      have apart := notReady ready member
      omega
    have here : sd + n ∉ readFds.members := fun ready => by
      have apart := notReady _ ready
      omega
    have upTo : sd + n ≤ server.maxSd := by omega
    have inside : 0 ≤ sd + n ∧ sd + n < fdSetSize := ⟨by omega, by omega⟩
    rw [List.replicate_succ', Int.natCast_succ, ← Int.add_assoc]
    exact before.next (put_step (.skip (t := { t with scan := some ⟨readFds, sd + n⟩ }) rfl started upTo inside here)
      .internal)

/-- A tick in which just one child is ready reads from it. -/
theorem TcpWorld.tick_reads (cfg : Setting) (w : TcpWorld) {childSd : Int} {child : UInt32}
    {incoming rest : List UInt8} {rspPkt : UcpPacket} (inLoop : (w.threads host idx).base.stage = .loop)
    (atTick : (w.threads host idx).base.client = .tick) (idle : (w.threads host idx).scan = none)
    (started : (w.threads host idx).server = some server) (nonneg : 0 ≤ server.sd) (above : server.sd < childSd)
    (registered : childSd ∈ server.serverFdSet.members) (within : childSd ≤ server.maxSd)
    (bounded : server.maxSd < fdSetSize) (peer : (w.threads host idx).peer childSd = child) (nonempty : incoming ≠ [])
    (fits : incoming.length ≤ tcpSegmentSize) (run : clientReceive (w.windows host) incoming rspPkt = .ok windows)
    (unread : (w.daemons child).stream = incoming ++ rest) :
    ∃ labels, Run (TcpWorldStep cfg) w labels
        (w.put host idx windows { w.threads host idx with
            base := { (w.threads host idx).base with client := afterTick windows } }
          (Function.update w.daemons child { w.daemons child with stream := rest }) w.network) ∧
      labels.flatten = [.read (w.daemons child).stream incoming, .other] := by
  generalize thread : w.threads host idx = t at *
  have inside := server.serverFdSet.bounded childSd registered
  let ready : FdSet := ⟨{childSd}, fun sd member => Finset.mem_singleton.mp member ▸ inside⟩
  have selects : Run (TcpWorldStep cfg) (w.put host idx (w.windows host) t w.daemons w.network) [[]]
      (w.put host idx (w.windows host) { t with scan := some ⟨ready, server.sd⟩ } w.daemons w.network) :=
    .next .start (put_step (.select ready inLoop atTick idle started (Finset.singleton_subset_iff.mpr registered))
      .internal)
  rw [← thread, put_self, thread] at selects
  have first := selects.append (skips (t := { t with scan := some ⟨ready, server.sd⟩ }) (childSd - server.sd).toNat
    rfl started nonneg (by omega) bounded fun sd member => .inr (by rw [Finset.mem_singleton.mp member]; omega))
  rw [show server.sd + ((childSd - server.sd).toNat : Int) = childSd by omega] at first
  have reads : TcpBlockStep (cfg.context host idx) (w.windows host) { t with scan := some ⟨ready, childSd⟩ }
      (some (.read child incoming)) windows { t with scan := some ⟨ready, childSd + 1⟩ } :=
    peer ▸ .reads (t := { t with scan := some ⟨ready, childSd⟩ }) rfl started within inside
      (Finset.mem_singleton_self childSd) above.ne' nonempty fits run
  have read := first.next (put_step reads (.read unread))
  have second := read.append (skips (t := { t with scan := some ⟨ready, childSd + 1⟩ })
    (server.maxSd - childSd).toNat rfl started (by omega) (by omega) bounded
    fun sd member => .inl (by rw [Finset.mem_singleton.mp member]; exact Int.lt_succ childSd))
  have beyond : server.maxSd < childSd + 1 + ((server.maxSd - childSd).toNat : Int) := by omega
  have whole := second.next (put_step (.tickEnd
    (t := { t with scan := some ⟨ready, childSd + 1 + (server.maxSd - childSd).toNat⟩ }) rfl started beyond) .silent)
  have same : ({ t with base := { t.base with client := afterTick windows }, scan := none } : TcpBlockThread) =
      { t with base := { t.base with client := afterTick windows } } := by rw [← idle]
  refine ⟨_, same ▸ whole, ?_⟩
  simp

/-- The world with the TCP servers follows the one with the lists of connections:
its threads are the same, and between two ticks. -/
structure TcpWorld.Follows (w : TcpWorld) (cfg : Setting) (v : World) : Prop where
  mirrors : w.Mirrors v
  ready : ∀ host idx, (w.threads host idx).Ready (cfg.dstIp host idx)

theorem TcpWorld.Follows.start (cfg : Setting) :
    (tcpWorldStart cfg fun host idx _ => cfg.dstIp host idx).Follows cfg (worldStart cfg) where
  mirrors := ⟨rfl, rfl, rfl, fun _ _ => ⟨[], rfl, fun _ => rfl, fun _ => ⟨rfl, rfl⟩, nofun⟩⟩
  ready _ _ := ⟨rfl, rfl, fun _ => rfl, nofun, nofun⟩

theorem TcpWorld.Follows.put (follows : w.Follows cfg v) {a : ThreadState} (mirrors : t.Mirrors a)
    (ready : t.Ready (cfg.dstIp host idx)) : (w.put host idx windows t daemons network).Follows cfg
      { v.setThread host idx windows a with daemons, network } := by
  refine ⟨follows.mirrors.setThread mirrors, fun host' idx' => ?_⟩
  rw [TcpWorld.put]
  by_cases sameHost : host' = host
  · subst sameHost
    by_cases sameIdx : idx' = idx
    · subst sameIdx
      simpa using ready
    · simpa [Function.update_of_ne sameIdx] using follows.ready host' idx'
  · simpa [Function.update_of_ne sameHost] using follows.ready host' idx'

/-- What the world with the lists of connections does, ticks with one call at most
included, the one with the TCP servers can do as well. -/
theorem TcpWorld.Follows.lift (follows : w.Follows cfg v) (inv : WorldInv cfg v) (step : TickStep cfg v events v') :
    ∃ labels w', Run (TcpWorldStep cfg) w labels w' ∧ labels.flatten = events ∧ w'.Follows cfg v' := by
  have windows := follows.mirrors.windows
  have daemons := follows.mirrors.daemons
  have network := follows.mirrors.network
  cases step with
  | @silent host idx windows' a' step =>
    rw [← windows] at step
    obtain ⟨t', step', mirrors', ready'⟩ :=
      (follows.ready host idx).lift (follows.mirrors.threads host idx) step (.inl rfl)
    refine ⟨[[.other]], _, .next .start (.thread step' .silent), rfl, ?_⟩
    rw [daemons, network]
    exact follows.put mirrors' ready'
  | @send host idx windows' a' bytes step =>
    rw [← windows] at step
    obtain ⟨t', step', mirrors', ready'⟩ :=
      (follows.ready host idx).lift (follows.mirrors.threads host idx) step (.inr ⟨bytes, rfl⟩)
    refine ⟨[[.other]], _, .next .start (.thread step' .send), rfl, ?_⟩
    rw [daemons, network]
    exact follows.put mirrors' ready'
  | @accept host idx windows' a' server waits step connected client =>
    obtain ⟨rfl, rfl⟩ := inv.taken client
    rw [← windows] at step
    obtain ⟨t', step', mirrors', ready'⟩ :=
      (follows.ready host firstThread).accept (follows.mirrors.threads host firstThread) waits step
    rw [← daemons] at connected client
    refine ⟨[[.other]], _, .next .start (.thread step' (.accept connected client)), rfl, ?_⟩
    rw [daemons, network]
    exact follows.put mirrors' ready'
  | @read host idx windows' a' server incoming rest step unread =>
    rw [← windows] at step
    cases step with
    | tickRead rspPkt inLoop atTick member nonempty fits run =>
      have ready := follows.ready host idx
      have mirrors := follows.mirrors.threads host idx
      obtain ⟨rfl, server, started, sameSd, registered⟩ := ready.connected mirrors member
      obtain ⟨children, same, holds⟩ := id mirrors
      have peers := (holds.serves server started).peers
      rw [same] at inLoop atTick
      rw [← daemons] at unread
      obtain ⟨labels, taken, told⟩ := w.tick_reads cfg inLoop atTick ready.idle started (by omega)
        (show server.sd < 5 by omega) registered (peers.window 5 registered) peers.bounded (by rw [ready.peer])
        nonempty fits run unread
      refine ⟨labels, _, taken, ?_, ?_⟩
      · rw [told, daemons]
      · rw [daemons, network]
        exact follows.put (mirrors.setClient ready.idle _) (ready.setBase (fun out => absurd inLoop out) rfl)
  | @daemon host d step =>
    rw [← daemons] at step
    have arrives : v.ArrivesAt host = fun datagram =>
        datagram ∈ w.network ∧ datagram.destination = serverAddress host firstThread := by
      rw [network]
      rfl
    rw [arrives] at step
    exact ⟨[[.other]], _, .next .start (.daemon step), rfl, ⟨windows, congrArg (Function.update · _ _) daemons, network,
      follows.mirrors.threads⟩, follows.ready⟩
  | @connect host d client idx step isClient listening =>
    rw [← daemons] at step isClient
    have arrives : v.ArrivesAt host = fun datagram =>
        datagram ∈ w.network ∧ datagram.destination = serverAddress host firstThread := by
      rw [network]
      rfl
    rw [arrives] at step
    obtain ⟨children, same, _⟩ := follows.mirrors.threads client idx
    rw [same] at listening
    exact ⟨[[.other]], _, .next .start (.connect step isClient listening), rfl, ⟨windows,
      congrArg (Function.update · _ _) daemons, network, follows.mirrors.threads⟩, follows.ready⟩

end World

section Results

variable {cfg : Setting} {peer : UInt32 → Fin numThreads → Int → UInt32} {ticks labels : List (List WorldEvent)}
  {w : TcpWorld} {v : World} {host : UInt32}

theorem tcpWorldRun_follows (run : Run (TickStep cfg) (worldStart cfg) ticks v) : ∃ labels w,
    Run (TcpWorldStep cfg) (tcpWorldStart cfg fun host idx _ => cfg.dstIp host idx) labels w ∧
      labels.flatten = ticks.flatten ∧ w.Follows cfg v := by
  refine run.invariant (fun ticks v => ∃ labels w,
    Run (TcpWorldStep cfg) (tcpWorldStart cfg fun host idx _ => cfg.dstIp host idx) labels w ∧
      labels.flatten = ticks.flatten ∧ w.Follows cfg v) ⟨[], _, .start, rfl, .start cfg⟩ ?_
  rintro ticks v events v' before ⟨labels, w, run, told, follows⟩ step
  obtain ⟨more, w', goesOn, same, follows'⟩ := follows.lift (worldRun_inv (tickRun before)) step
  refine ⟨labels ++ more, w', run.append goesOn, ?_, follows'⟩
  rw [List.flatten_append, List.flatten_append, List.flatten_singleton, told, same]

/-- With its TCP server, too, the client comes to the end of its two packets. -/
theorem tcpWorldRun_completes : ∃ labels w, Run (TcpWorldStep (plainSetting twoPackets))
    (tcpWorldStart (plainSetting twoPackets) fun _ _ _ => 1) labels w ∧ ReadsWhole labels.flatten ∧
      (w.threads 0 firstThread).base.client = .left true ∧
      ∃ server, (w.threads 0 firstThread).server = some server ∧ server.sd = 3 ∧ 5 ∈ server.serverFdSet.members ∧
        (w.threads 0 firstThread).peer 5 = 1 := by
  obtain ⟨ticks, v, run, whole, serving, completed⟩ := plainSetting_completes
  obtain ⟨labels, w, run', told, follows⟩ := tcpWorldRun_follows run
  have mirrors := follows.mirrors.threads 0 firstThread
  obtain ⟨_, server, started, sameSd, registered⟩ := (follows.ready 0 firstThread).connected mirrors serving.child
  obtain ⟨children, same, _⟩ := mirrors
  have left : (v.threads 0 firstThread).client = .left true := completed.left
  rw [same] at left
  refine ⟨labels, w, run', told ▸ whole, left, server, started, sameSd, registered, ?_⟩
  rw [(follows.ready 0 firstThread).peer]
  rfl

/-- The world whose clients have their TCP servers as they are does what the world
does whose clients have lists of connections, and tells the same from outside. -/
theorem tcp_world_refines (run : Run (TcpWorldStep cfg) (tcpWorldStart cfg peer) labels w) :
    ∃ v, WorldRun cfg labels.flatten v ∧ w.windows = v.windows ∧ w.daemons = v.daemons ∧ w.network = v.network ∧
      ∀ host idx, ∃ children, v.threads host idx = { (w.threads host idx).base with children } ∧ children.Nodup ∧
        ∀ server, (w.threads host idx).server = some server → ∀ peer', peer' ∈ children ↔
          ∃ sd ∈ server.serverFdSet.members, sd ≠ server.sd ∧ (w.threads host idx).peer sd = peer' := by
  obtain ⟨v, run', mirrors⟩ := tcpWorldRun_mirrored run
  refine ⟨v, run', mirrors.windows, mirrors.daemons, mirrors.network, fun host idx => ?_⟩
  obtain ⟨children, same, holds⟩ := mirrors.threads host idx
  refine ⟨children, same, ?_, fun server started => (holds.serves server started).peers.mem_iff⟩
  cases started : (w.threads host idx).server with
  | none =>
    rw [(holds.unstarted started).2]
    exact List.nodup_nil
  | some server => exact (holds.serves server started).peers.nodup

/-- The client has sent both packets and has read in its ticks that they are saved. -/
theorem tcp_world_refines_two_packets : ∃ labels w v, Run (TcpWorldStep (plainSetting twoPackets))
    (tcpWorldStart (plainSetting twoPackets) fun _ _ _ => 1) labels w ∧
      (w.threads 0 firstThread).base.client = .left true ∧ WorldRun (plainSetting twoPackets) labels.flatten v ∧
      (v.threads 0 firstThread).client = .left true ∧ w.daemons = v.daemons ∧ w.network = v.network ∧
      1 ∈ (v.threads 0 firstThread).children := by
  obtain ⟨labels, w, run, _, left, server, started, sameSd, registered, peer⟩ := tcpWorldRun_completes
  obtain ⟨v, run', _, daemons, network, threads⟩ := tcp_world_refines run
  obtain ⟨children, same, _, connected⟩ := threads 0 firstThread
  refine ⟨labels, w, v, run, left, run', ?_, daemons, network, ?_⟩
  · rw [same]
    exact left
  · rw [same]
    refine (connected server started 1).mpr ⟨5, registered, ?_, peer⟩
    rw [sameSd]
    decide

/-- With the TCP servers as they are, too, a client that has run out of packets has
left its partition in the file of its server. -/
theorem tcp_world_delivers (sound : cfg.Sound host)
    (run : Run (TcpWorldStep cfg) (tcpWorldStart cfg peer) labels w) (whole : ReadsWhole labels.flatten)
    (left : (w.threads host firstThread).base.client = .left true) :
    (w.daemons (cfg.dstIp host firstThread)).file = some ((cfg.dstFilename host firstThread).take 19) ∧
      (w.daemons (cfg.dstIp host firstThread)).server.handle.fp.content = cfg.partition host firstThread := by
  obtain ⟨v, run', mirrors⟩ := tcpWorldRun_mirrored run
  obtain ⟨children, same, _⟩ := mirrors.threads host firstThread
  have left' : (v.threads host firstThread).client = .left true := by
    rw [same]
    exact left
  have inLoop := (worldRun_inv run').in_loop_of_left left'
  obtain ⟨file, k, filled, system⟩ := worldRun_systemInv sound run' whole inLoop
  rw [mirrors.daemons]
  exact ⟨file, system.whole_file sound.short left'⟩

theorem tcp_world_delivers_two_packets : ∃ labels w, Run (TcpWorldStep (plainSetting twoPackets))
    (tcpWorldStart (plainSetting twoPackets) fun _ _ _ => 1) labels w ∧
      (w.threads 0 firstThread).base.client = .left true ∧ (w.daemons 1).file = some [97] ∧
      (w.daemons 1).server.handle.fp.content = twoPackets := by
  obtain ⟨labels, w, run, whole, left, _⟩ := tcpWorldRun_completes
  obtain ⟨file, content⟩ := tcp_world_delivers plainSetting_sound run whole left
  exact ⟨labels, w, run, left, file, content⟩

end Results

end UCP
