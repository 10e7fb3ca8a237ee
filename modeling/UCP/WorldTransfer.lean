import UCP.WorldRuns

namespace UCP

/-- The data packets on the network that a first thread has sent. -/
def dataFrom (host : UInt32) (network : List UdpDatagram) : List (List UInt8) :=
  (network.filter fun datagram => decide (datagram.source = clientAddress host firstThread) &&
    (typeField datagram.bytes == ucpPacketTypeData)).map (·.bytes)

/-- What the first thread of a host and the server that it sends to are as a
system of their own. -/
def World.view (w : World) (cfg : Setting) (host : UInt32) : SystemState where
  client := (w.threads host firstThread).client
  windows := w.windows host
  source := (w.threads host firstThread).handle
  network := dataFrom host w.network
  server := (w.daemons (cfg.dstIp host firstThread)).server
  stream := (w.daemons (cfg.dstIp host firstThread)).stream

def ThreadAct.sent : ThreadAct → List (List UInt8)
  | send bytes => [bytes]
  | _ => []

def ThreadAct.taken : ThreadAct → List UInt8
  | read _ incoming => incoming
  | _ => []

theorem IsMetadata.encodable {ctx : ThreadContext} {c bytes : List UInt8} (metadata : IsMetadata ctx c bytes) :
    ∃ packet : UcpPacket, packet.wire = bytes ∧ packet.type = ucpPacketTypeMetadata ∧
      packet.metadataPacket.desinationName.bytes =
        ctx.dstFilename.take 19 ++ List.replicate (19 - ctx.dstFilename.length) 0 ++ [0] ∧
      packet.metadataPacket.partSize = UInt32.ofNat c.length := by
  obtain ⟨packet, made, wire⟩ := metadata
  obtain ⟨packet', made', isMetadata, name⟩ := ucpPacketInitMetadata_eq ctx.dstFilename ctx.dstFilename.length
    (UInt8.ofNat ctx.idx) (UInt32.ofNat c.length)
  cases made.symm.trans made'
  refine ⟨packet, wire, isMetadata, name, ?_⟩
  obtain ⟨name', copied, same⟩ := Except.bind_eq_ok.mp made
  cases same
  rfl

theorem IsMetadata.typeField_eq {ctx : ThreadContext} {c bytes : List UInt8} (metadata : IsMetadata ctx c bytes) :
    typeField bytes = ucpPacketTypeMetadata := by
  obtain ⟨packet, rfl, isMetadata, _⟩ := metadata.encodable
  have type := typeField_wire (.metadata isMetadata) []
  rwa [List.append_nil, isMetadata] at type

/-- What holds of a system by itself, and does not depend on how the client comes
out of a tick with several reads or on what the receive buffers hold. -/
structure SystemProperty (c : List UInt8) (P : SystemState → Prop) : Prop where
  start : ∀ {file : FileIoPartitionHandle}, file.fp.content = List.replicate c.length 0 → P (systemStart c file)
  step : ∀ {s s'}, P s → SystemStep s s' → P s'
  stillTicking : ∀ {s : SystemState}, P { s with client := afterTick s.windows } → P { s with client := .tick }
  passedOver : ∀ {s : SystemState} {server : ServerState}, P s → server.handle = s.server.handle →
    server.seqQueue = s.server.seqQueue → server.sequencing = s.server.sequencing →
    s.server.receiving.pc = .receive → server.receiving.pc = .receive → P { s with server }

section System

variable {c : List UInt8} {P : SystemState → Prop} {s : SystemState} {ctx : ThreadContext} {windows : ClientWindows}
  {t t' : ThreadState} {act : ThreadAct}

/-- A step of the loop keeps it, when it reads from the boundary of a control
packet. -/
theorem SystemProperty.thread (property : SystemProperty c P) (holds : P s)
    (step : BlockThreadStep ctx s.windows t act windows t') (inLoop : t.stage = .loop)
    (client : t.client = s.client)
    (source : t.handle = s.source)
    (aligned : ∀ server incoming, act = .read server incoming →
      (∃ rest, s.stream = incoming ++ rest) ∧ 6 ∣ s.stream.length ∧ 6 ≤ incoming.length) :
    P ⟨t'.client, windows, t'.handle, act.sent ++ s.network, s.server, s.stream.drop act.taken.length⟩ := by
  obtain ⟨client', windows', source', network, threads, stream⟩ := s
  subst client source
  cases step with
  | noSocket early => rw [inLoop] at early; cases early
  | socket early => rw [inLoop] at early; cases early
  | noServer early => rw [inLoop] at early; cases early
  | server _ early => rw [inLoop] at early; cases early
  | metadata _ early => rw [inLoop] at early; cases early
  | accept _ early => rw [inLoop] at early; cases early
  | get _ atGet took => exact property.step holds (.get atGet took)
  | send buf _ atSend sent => exact property.step holds (.send buf atSend sent)
  | append _ atAppend => exact property.step holds (.append atAppend)
  | tickAccept => exact holds
  | @tickRead server incoming windows rspPkt _ atTick _ _ fits received =>
    obtain ⟨⟨rest, rfl⟩, whole, six⟩ := aligned server incoming rfl
    have next := property.step holds (.tickRead rspPkt atTick rfl whole six fits received)
    have left : (incoming ++ rest).drop (ThreadAct.read server incoming).taken.length = rest := List.drop_left
    rw [left, atTick]
    exact property.stillTicking (s := ⟨.tick, windows, t.handle, network, threads, rest⟩) next
  | tickClose => exact holds
  | tickEnd _ atTick => exact property.step holds (.tickIdle atTick)

/-- Receiving a metadata packet has no effect on the server's threads. -/
theorem receivingThreadReceive_metadata {p : UcpPacket} (isMetadata : p.type = ucpPacketTypeMetadata)
    {thread thread' : ReceivingThread} {handle handle' : FileIoPartitionHandle} {io : SaveIo}
    (received : receivingThreadReceive p.wire io thread handle = .ok (thread', handle')) :
    thread'.pc = .receive ∧ handle' = handle := by
  obtain ⟨-, -, -, -, count, q, decoded, same⟩ :=
    (UcpPacket.Encodable.metadata isMetadata).receive (Buffer.zeros udpPacketSize) thread.recvBuffer thread.rcvPkt
  have nonempty : (udpSocketReceiveFrom thread.recvBuffer p.wire).1 ≠ 0 := by
    rw [count, UcpPacket.wire_of_metadata isMetadata, UcpMetadataPacket.wire_length]
    decide
  have other : q.type ≠ ucpPacketTypeData := by
    rw [same.type_eq, isMetadata]
    decide
  simp only [receivingThreadReceive, if_neg nonempty, decoded, bind, Except.bind, receivingThreadSave,
    if_neg other] at received
  cases received
  exact ⟨rfl, rfl⟩

/-- With metadata packets among the datagrams the server does what it does
without them, or passes one of them over. -/
theorem ServerStep.past_metadata {arrives wanted : List UInt8 → Prop} {server server' : ServerState}
    {e : ServerEvent}
    (step : ServerStep arrives server e server')
    (sorted : ∀ bytes, arrives bytes → wanted bytes ∨
      ∃ p : UcpPacket, p.type = ucpPacketTypeMetadata ∧ p.wire = bytes) :
    ServerStep wanted server e server' ∨ (e = .silent ∧ server'.handle = server.handle ∧
      server'.seqQueue = server.seqQueue ∧ server'.sequencing = server.sequencing ∧
      server.receiving.pc = .receive ∧ server'.receiving.pc = .receive) := by
  cases step with
  | @save datagram io thread handle item arrived atReceive received pushing =>
    rcases sorted datagram arrived with wanted | ⟨p, isMetadata, rfl⟩
    · exact .inl (.save wanted atReceive received pushing)
    · obtain ⟨stays, _⟩ := receivingThreadReceive_metadata isMetadata received
      rw [stays] at pushing
      cases pushing
  | @ignore datagram io thread handle arrived atReceive received other =>
    rcases sorted datagram arrived with wanted | ⟨p, isMetadata, rfl⟩
    · exact .inl (.ignore wanted atReceive received other)
    · obtain ⟨stays, sameHandle⟩ := receivingThreadReceive_metadata isMetadata received
      exact .inr ⟨rfl, sameHandle, rfl, rfl, atReceive, stays⟩
  | receiveError atReceive => exact .inl (.receiveError atReceive)
  | push pushing pushed => exact .inl (.push pushing pushed)
  | sequence taken => exact .inl (.sequence taken)
  | cancel returned => exact .inl (.cancel returned)

/-- The invariant behind `ack_implies_saved` is such a property. -/
theorem systemProperty_inv (short : c.length < 2 ^ 32) :
    SystemProperty c fun s => ∃ k filled, SystemInv c k filled s where
  start zeros := ⟨0, ∅, .start zeros⟩
  step := by
    rintro s s' ⟨k, filled, inv⟩ step
    exact inv.step short step
  stillTicking := by
    rintro s ⟨k, filled, inv⟩
    have account := inv.account
    rw [show ClientPc.inHand _ = [] from afterTick_inHand _] at account
    exact ⟨k, filled, inv.reading, account, inv.server, inv.network, inv.stream, nofun⟩
  passedOver := by
    rintro s server ⟨k, filled, inv⟩ handle seqQueue sequencing _ waiting
    refine ⟨k, filled, inv.reading, inv.account, ⟨?_, fun item member => ?_, ?_, ?_⟩, inv.network,
      inv.stream, inv.ended⟩
    · exact handle ▸ inv.server.file
    · rw [ReceivingThread.inHand, waiting] at member
      cases member
    · exact seqQueue ▸ inv.server.queue
    · exact sequencing ▸ inv.server.sequencing

/-- A client that has run out of packets leaves the whole partition in the file. -/
theorem SystemInv.whole_file {k : Nat} {filled : Set Nat} (inv : SystemInv c k filled s)
    (short : c.length < 2 ^ 32) (left : s.client = .left true) :
    s.server.handle.fp.content = c := by
  obtain ⟨nothing, finished⟩ := inv.ended left
  refine inv.server.file.eq_reference fun i within => ?_
  obtain ⟨j, inside, covers⟩ := exists_segment_covers short within
  rcases inv.account.accounted j (inside.trans_le finished) with kept | covered
  · rw [nothing, left] at kept
    cases kept
  · exact covered covers

end System

/-- The server that the first thread of a host sends to: before it has a client
it is idle, and when it has taken this one, it has opened its file and the two of
them work as a system of their own. -/
structure TransferInv (cfg : Setting) (host : UInt32) (P : SystemState → Prop) (w : World) : Prop where
  idle : (w.daemons (cfg.dstIp host firstThread)).client = none →
    (w.daemons (cfg.dstIp host firstThread)).stream = [] ∧
      (w.daemons (cfg.dstIp host firstThread)).pc ≠ .connect ∧ (w.daemons (cfg.dstIp host firstThread)).pc ≠ .serve
  taken : (w.daemons (cfg.dstIp host firstThread)).client = some (clientAddress host firstThread) →
    (w.daemons (cfg.dstIp host firstThread)).file = some ((cfg.dstFilename host firstThread).take 19) ∧
      P (w.view cfg host)

/-- What the transfer from a host needs: a partition whose offsets fit in 32
bits, a string for a name, and a disk that takes what is written. -/
structure Setting.Sound (cfg : Setting) (host : UInt32) : Prop where
  short : (cfg.partition host firstThread).length < 2 ^ 32
  free : 0 ∉ cfg.dstFilename host firstThread
  fopen : (cfg.disk (cfg.dstIp host firstThread)).fopen = true
  writes : ∀ k, udpPacketDataSize ≤ (cfg.disk (cfg.dstIp host firstThread)).accepts k

section Step

variable {cfg : Setting} {P : SystemState → Prop} {w : World} {host other : UInt32} {idx : Fin numThreads}
  {windows : ClientWindows}
  {t : ThreadState} {act : ThreadAct} {datagram : UdpDatagram} {d : DaemonState}

theorem TransferInv.start (cfg : Setting) (host : UInt32) (P : SystemState → Prop) :
    TransferInv cfg host P (worldStart cfg) where
  idle _ := ⟨rfl, nofun, nofun⟩
  taken taken := by cases taken

/-- A step after which the server is the same and the view too changes nothing. -/
theorem TransferInv.of_view {w' : World} (inv : TransferInv cfg host P w)
    (daemon : w'.daemons (cfg.dstIp host firstThread) = w.daemons (cfg.dstIp host firstThread))
    (view : w'.view cfg host = w.view cfg host) : TransferInv cfg host P w' where
  idle := by
    rw [daemon]
    exact inv.idle
  taken := by
    rw [daemon, view]
    exact inv.taken

/-- `main` of the server opens the file that the client has named, filled with
as many zeros as the partition has bytes. -/
theorem openDestination_metadata {ctx : ThreadContext} {c bytes : List UInt8} {disk : Disk}
    {handle handle' : FileIoPartitionHandle} {recvBuffer : Buffer udpPacketSize} {rcvPkt packet : UcpPacket}
    {file : Option (List UInt8)} (short : c.length < 2 ^ 32) (free : 0 ∉ ctx.dstFilename)
    (fopen : disk.fopen = true)
    (writes : ∀ k, udpPacketDataSize ≤ disk.accepts k) (metadata : IsMetadata ctx c bytes)
    (decoded : ucpPacketDecode (udpSocketReceiveFrom recvBuffer bytes).2.bytes udpPacketSize rcvPkt = .ok packet)
    (opened : openDestination disk handle packet = .ok (file, handle')) :
    file = some (ctx.dstFilename.take 19) ∧ handle'.fp.content = List.replicate c.length 0 := by
  obtain ⟨sent, rfl, isMetadata, name, partSize⟩ := metadata.encodable
  obtain ⟨_, _, _, _, _, q, decoded', same⟩ :=
    (UcpPacket.Encodable.metadata isMetadata).receive (Buffer.zeros udpPacketSize) recvBuffer rcvPkt
  obtain rfl : packet = q := Except.ok.inj (decoded.symm.trans decoded')
  have fields := same.metadata_eq isMetadata
  have read : Mem.loadString packet.metadataPacket.desinationName.bytes = .ok (ctx.dstFilename.take 19) := by
    rw [fields, name]
    exact loadString_desinationName free
  have size : packet.metadataPacket.partSize.toNat = c.length := by
    rw [fields, partSize, UInt32.toNat_ofNat_of_lt' short]
  simp only [openDestination, if_pos (same.type_eq.trans isMetadata), read, bind, Except.bind, if_pos fopen, size]
    at opened
  cases opened
  exact ⟨rfl, (fileIoOpenFileOfSize_succeeds writes handle c.length).2⟩

theorem dataFrom_cons_other (notData : datagram.source = clientAddress host firstThread →
    typeField datagram.bytes ≠ ucpPacketTypeData) (network : List UdpDatagram) :
    dataFrom host (datagram :: network) = dataFrom host network := by
  rw [dataFrom, List.filter_cons_of_neg, dataFrom]
  simpa using notData

theorem dataFrom_cons_data (source : datagram.source = clientAddress host firstThread)
    (isData : typeField datagram.bytes = ucpPacketTypeData) (network : List UdpDatagram) :
    dataFrom host (datagram :: network) = datagram.bytes :: dataFrom host network := by
  rw [dataFrom, List.filter_cons_of_pos (by simp [source, isData]), List.map_cons, dataFrom]

/-- As long as the first thread of a host is not in its loop it has sent no data. -/
theorem WorldInv.no_data (inv : WorldInv cfg w) (before : (w.threads host firstThread).stage ≠ .loop) :
    dataFrom host w.network = [] := by
  rw [dataFrom, List.map_eq_nil_iff, List.filter_eq_nil_iff]
  intro datagram member
  rw [Bool.and_eq_true, decide_eq_true_eq, beq_iff_eq]
  rintro ⟨source, isData⟩
  obtain ⟨other, idx, source', _, metadata | ⟨rfl, going, _⟩⟩ := inv.network datagram member
  · rw [metadata.typeField_eq] at isData
    exact absurd isData (by decide)
  · obtain ⟨rfl, _⟩ := clientAddress_inj (source.symm.trans source')
    exact before going

/-- The view of a host is left alone by the steps of other threads. -/
theorem WorldInv.view_other (inv : WorldInv cfg w)
    (step : BlockThreadStep (cfg.context other idx) (w.windows other) (w.threads other idx) act windows t)
    (accepted : ∀ server, act = .accept server → (w.daemons server).client = some (clientAddress other idx))
    (elsewhere : ¬(other = host ∧ idx = firstThread)) :
    (w.setThread other idx windows t).view cfg host = w.view cfg host := by
  have sameThread : (w.setThread other idx windows t).threads host firstThread = w.threads host firstThread := by
    rw [World.setThread_threads, if_neg]
    rintro ⟨rfl, same⟩
    exact elsewhere ⟨rfl, same.symm⟩
  have sameWindows : (w.setThread other idx windows t).windows host = w.windows host := by
    rw [World.setThread_windows]
    split
    · rename_i here
      subst here
      obtain ⟨out, inLoop, _⟩ := inv.local step accepted
      exact (out fun going => elsewhere ⟨rfl, (inLoop going).1⟩).2.1
    · rfl
  rw [World.view, sameThread, sameWindows]
  rfl

theorem World.view_setDaemon_other (w : World) {server : UInt32} (elsewhere : cfg.dstIp host firstThread ≠ server)
    (d : DaemonState) : (w.setDaemon server d).view cfg host = w.view cfg host := by
  rw [view, setDaemon_daemons, if_neg elsewhere]
  rfl

theorem World.view_setThread (w : World) (cfg : Setting) (host : UInt32) (windows : ClientWindows)
    (t : ThreadState) :
    (w.setThread host firstThread windows t).view cfg host =
      { w.view cfg host with client := t.client, windows, source := t.handle } := by
  rw [view, setThread_threads, setThread_windows, if_pos ⟨rfl, rfl⟩, if_pos rfl]
  rfl

/-- Before its loop the first thread leaves its view alone. -/
theorem WorldInv.view_before (inv : WorldInv cfg w)
    (step : BlockThreadStep (cfg.context host firstThread) (w.windows host) (w.threads host firstThread) act windows t)
    (before : (w.threads host firstThread).stage ≠ .loop) :
    (w.setThread host firstThread windows t).view cfg host = w.view cfg host := by
  obtain ⟨rfl, sameHandle, sameClient, _⟩ := step.before_loop before (inv.early host firstThread before).1
  rw [World.view_setThread, sameHandle, sameClient]
  rfl

/-- A data packet that the first thread sends is one more on the network of its view. -/
theorem World.view_send (w : World) {bytes : List UInt8} (isData : typeField bytes = ucpPacketTypeData)
    (windows : ClientWindows) (t : ThreadState) :
    ({ w.setThread host firstThread windows t with network :=
      ⟨clientAddress host firstThread, serverAddress (cfg.dstIp host firstThread) firstThread, bytes⟩ ::
        w.network } : World).view cfg host =
      { (w.setThread host firstThread windows t).view cfg host with network := bytes :: (w.view cfg host).network } := by
  have grown : dataFrom host (⟨clientAddress host firstThread,
      serverAddress (cfg.dstIp host firstThread) firstThread, bytes⟩ :: w.network) =
      bytes :: dataFrom host w.network := dataFrom_cons_data rfl isData w.network
  rw [World.view_setThread, World.view, grown, World.setThread_threads, World.setThread_windows, if_pos ⟨rfl, rfl⟩,
    if_pos rfl]
  rfl

/-- What a step of the server that a first thread sends to leaves of its view. -/
theorem World.view_setDaemon (w : World) (d : DaemonState) :
    (w.setDaemon (cfg.dstIp host firstThread) d).view cfg host =
      { w.view cfg host with server := d.server, stream := d.stream } := by
  rw [World.view, World.setDaemon_daemons, if_pos rfl]
  rfl

/-- In its loop the first thread has a server, and the two of them take a step of
the system. -/
theorem TransferInv.in_loop (transfer : TransferInv cfg host P w) (inv : WorldInv cfg w)
    (property : SystemProperty (cfg.partition host firstThread) P)
    (step : BlockThreadStep (cfg.context host firstThread) (w.windows host) (w.threads host firstThread) act windows t)
    (inLoop : (w.threads host firstThread).stage = .loop)
    (aligned : ∀ server incoming, act = .read server incoming →
      (∃ rest, (w.view cfg host).stream = incoming ++ rest) ∧
        6 ∣ (w.view cfg host).stream.length ∧ 6 ≤ incoming.length)
    {w' : World} (view : w'.view cfg host = { (w.setThread host firstThread windows t).view cfg host with
      network := act.sent ++ (w.view cfg host).network
      stream := (w.view cfg host).stream.drop act.taken.length })
    (file : (w'.daemons (cfg.dstIp host firstThread)).file = (w.daemons (cfg.dstIp host firstThread)).file)
    (client : (w'.daemons (cfg.dstIp host firstThread)).client = (w.daemons (cfg.dstIp host firstThread)).client) :
    TransferInv cfg host P w' := by
  have partner := inv.partner host inLoop
  obtain ⟨opened, system⟩ := transfer.taken partner
  refine ⟨fun idle => ?_, fun _ => ⟨file.trans opened, ?_⟩⟩
  · cases (partner.symm.trans client.symm).trans idle
  · rw [view, World.view_setThread]
    exact property.thread system step inLoop rfl rfl aligned

/-- A step of a thread that sends and reads nothing. -/
theorem TransferInv.quiet (transfer : TransferInv cfg host P w) (inv : WorldInv cfg w)
    (property : SystemProperty (cfg.partition host firstThread) P)
    (step : BlockThreadStep (cfg.context other idx) (w.windows other) (w.threads other idx) act windows t)
    (accepted : ∀ server, act = .accept server → (w.daemons server).client = some (clientAddress other idx))
    (sendsNothing : act.sent = []) (readsNothing : ∀ server incoming, act ≠ .read server incoming) :
    TransferInv cfg host P (w.setThread other idx windows t) := by
  by_cases here : other = host ∧ idx = firstThread
  · obtain ⟨rfl, rfl⟩ := here
    by_cases inLoop : (w.threads other firstThread).stage = .loop
    · have takesNothing : act.taken = [] := by
        cases act with
        | read server incoming => exact absurd rfl (readsNothing server incoming)
        | _ => rfl
      refine transfer.in_loop inv property step inLoop 
        (fun server incoming reads => absurd reads (readsNothing _ _)) ?_ rfl rfl
      rw [sendsNothing, takesNothing, List.length_nil, List.drop_zero]
      rfl
    · exact transfer.of_view rfl (inv.view_before step inLoop)
  · exact transfer.of_view rfl (inv.view_other step accepted here)

theorem TransferInv.send (transfer : TransferInv cfg host P w) (inv : WorldInv cfg w)
    (property : SystemProperty (cfg.partition host firstThread) P)
    {bytes : List UInt8}
    (step : BlockThreadStep (cfg.context other idx) (w.windows other) (w.threads other idx) (.send bytes) windows t) :
    TransferInv cfg host P { w.setThread other idx windows t with network :=
      ⟨clientAddress other idx, serverAddress (cfg.dstIp other idx) idx, bytes⟩ :: w.network } := by
  have viewNetwork (network : List UdpDatagram) (same : dataFrom host network = dataFrom host w.network) :
      ({ w.setThread other idx windows t with network } : World).view cfg host =
        (w.setThread other idx windows t).view cfg host := by
    rw [World.view, World.view, same]
    rfl
  obtain ⟨_, _, _, sends⟩ := inv.local step nofun
  by_cases here : other = host ∧ idx = firstThread
  · obtain ⟨rfl, rfl⟩ := here
    by_cases inLoop : (w.threads other firstThread).stage = .loop
    · obtain ⟨_, _, data⟩ := step.in_loop inLoop (inv.drawn other)
      obtain ⟨i, _, wire⟩ := data bytes rfl
      exact transfer.in_loop inv property step inLoop nofun
        (World.view_send w (wire ▸ segment_typeField _ i) windows t) rfl rfl
    · have metadata : IsMetadata (cfg.context other firstThread) (cfg.partition other firstThread) bytes := by
        obtain ⟨_, _, _, ⟨server, accepts, _⟩ | ⟨_, _, silent | ⟨bytes', same, metadata⟩⟩⟩ :=
          step.before_loop inLoop (inv.early other firstThread inLoop).1
        · cases accepts
        · cases silent
        · cases same
          exact metadata
      have unseen : dataFrom other (⟨clientAddress other firstThread,
          serverAddress (cfg.dstIp other firstThread) firstThread, bytes⟩ :: w.network) =
          dataFrom other w.network :=
        dataFrom_cons_other (fun _ => by rw [metadata.typeField_eq]; decide) w.network
      exact transfer.of_view rfl ((viewNetwork _ unseen).trans (inv.view_before step inLoop))
  · have unseen : dataFrom host (⟨clientAddress other idx, serverAddress (cfg.dstIp other idx) idx, bytes⟩ ::
        w.network) = dataFrom host w.network :=
      dataFrom_cons_other (fun source => absurd (clientAddress_inj source) here) w.network
    exact transfer.of_view rfl ((viewNetwork _ unseen).trans (inv.view_other step nofun here))

theorem TransferInv.read (transfer : TransferInv cfg host P w) (inv : WorldInv cfg w)
    (property : SystemProperty (cfg.partition host firstThread) P)
    {server : UInt32} {incoming rest : List UInt8}
    (step : BlockThreadStep (cfg.context other idx) (w.windows other) (w.threads other idx) (.read server incoming)
      windows t) (unread : (w.daemons server).stream = incoming ++ rest)
    (aligned : 6 ∣ (w.daemons server).stream.length ∧ 6 ≤ incoming.length) :
    TransferInv cfg host P ((w.setThread other idx windows t).setDaemon server
      { w.daemons server with stream := rest }) := by
  obtain ⟨inLoop, member⟩ : (w.threads other idx).stage = .loop ∧ server ∈ (w.threads other idx).children := by
    cases step with
    | tickRead _ inLoop _ member => exact ⟨inLoop, member⟩
  have taken := inv.children other idx server member
  obtain ⟨rfl, rfl⟩ := inv.taken taken
  by_cases sameHost : other = host
  · subst sameHost
    refine transfer.in_loop inv property step inLoop (fun server incoming' reads => ?_) ?_ ?_ ?_
    · cases reads
      exact ⟨⟨rest, unread⟩, aligned⟩
    · have stream : (w.view cfg other).stream = incoming ++ rest := unread
      rw [stream, ThreadAct.taken, List.drop_left, World.view, World.setDaemon_daemons, if_pos rfl]
      rfl
    · rw [World.setDaemon_daemons, if_pos rfl]
    · rw [World.setDaemon_daemons, if_pos rfl]
  · by_cases sameServer : cfg.dstIp host firstThread = cfg.dstIp other firstThread
    · -- the server has another client, and this host has none
      have client : ((((w.setThread other firstThread windows t).setDaemon (cfg.dstIp other firstThread)
          { w.daemons (cfg.dstIp other firstThread) with stream := rest }).daemons
            (cfg.dstIp host firstThread))).client = some (clientAddress other firstThread) := by
        rw [World.setDaemon_daemons, if_pos sameServer]
        exact taken
      refine ⟨fun idle => ?_, fun taken' => ?_⟩
      · cases client.symm.trans idle
      · exact absurd (clientAddress_inj (Option.some.inj (client.symm.trans taken'))).1 sameHost
    · refine transfer.of_view ?_ ((World.view_setDaemon_other _ sameServer _).trans (inv.view_other step nofun ?_))
      · rw [World.setDaemon_daemons, if_neg sameServer]
        rfl
      · exact fun here => sameHost here.1

/-- A packet that may arrive at the server of a host is metadata, or the packet is
one that the host has sent as data. -/
theorem WorldInv.sorted (inv : WorldInv cfg w)
    (taken : (w.daemons (cfg.dstIp host firstThread)).client = some (clientAddress host firstThread))
    (bytes : List UInt8)
    (arrives : ∃ datagram, w.ArrivesAt (cfg.dstIp host firstThread) datagram ∧ datagram.bytes = bytes) :
    bytes ∈ (w.view cfg host).network ∨ ∃ p : UcpPacket, p.type = ucpPacketTypeMetadata ∧ p.wire = bytes := by
  obtain ⟨datagram, arrives, rfl⟩ := arrives
  obtain ⟨other, source, destination, metadata | ⟨going, i, _, wire⟩⟩ := inv.arrives arrives
  · obtain ⟨packet, wire, isMetadata, _⟩ := metadata.encodable
    exact .inr ⟨packet, isMetadata, wire⟩
  · have partner := inv.partner other going
    rw [destination, taken] at partner
    obtain ⟨rfl, _⟩ := clientAddress_inj (Option.some.inj partner)
    have isData : typeField datagram.bytes = ucpPacketTypeData := wire ▸ segment_typeField _ i
    exact .inl (List.mem_map.mpr ⟨datagram, List.mem_filter.mpr ⟨arrives.1, by simp [source, isData]⟩, rfl⟩)

theorem TransferInv.of_server (idle : d.client = none → d.stream = [] ∧ d.pc ≠ .connect ∧ d.pc ≠ .serve)
    (taken : d.client = some (clientAddress host firstThread) →
      d.file = some ((cfg.dstFilename host firstThread).take 19) ∧
        P { w.view cfg host with server := d.server, stream := d.stream }) :
    TransferInv cfg host P (w.setDaemon (cfg.dstIp host firstThread) d) := by
  have here : (w.setDaemon (cfg.dstIp host firstThread) d).daemons (cfg.dstIp host firstThread) = d := by
    rw [World.setDaemon_daemons, if_pos rfl]
  constructor
  · rw [here]
    exact idle
  · rw [here, World.view_setDaemon]
    exact taken

/-- A step of the server that its threads take no part in. -/
theorem TransferInv.moved (transfer : TransferInv cfg host P w) {pc : DaemonPc} {connected : Bool}
    (moves : (w.daemons (cfg.dstIp host firstThread)).pc ≠ .connect →
      (w.daemons (cfg.dstIp host firstThread)).pc ≠ .serve → pc ≠ .connect ∧ pc ≠ .serve) :
    TransferInv cfg host P (w.setDaemon (cfg.dstIp host firstThread)
      { w.daemons (cfg.dstIp host firstThread) with pc, connected }) := by
  refine .of_server (fun idle => ?_) transfer.taken
  obtain ⟨stream, notConnect, notServe⟩ := transfer.idle idle
  exact ⟨stream, moves notConnect notServe⟩

/-- A step of one of the server's threads. -/
theorem TransferInv.served (transfer : TransferInv cfg host P w) (inv : WorldInv cfg w)
    (property : SystemProperty (cfg.partition host firstThread) P)
    (serves : (w.daemons (cfg.dstIp host firstThread)).pc = .serve) {e : ServerEvent} {server : ServerState}
    (step : ServerStep (fun bytes => ∃ datagram, w.ArrivesAt (cfg.dstIp host firstThread) datagram ∧
      datagram.bytes = bytes) (w.daemons (cfg.dstIp host firstThread)).server e server) {bytes : List UInt8}
    (writes : (bytes = [] ∧ ∀ seqNo flag, e ≠ .sent seqNo flag) ∨ ∃ seqNo flag buf data, e = .sent seqNo flag ∧
      sendCtrlPacket seqNo flag buf data = .ok bytes) :
    TransferInv cfg host P (w.setDaemon (cfg.dstIp host firstThread)
      { w.daemons (cfg.dstIp host firstThread) with
        server, stream := (w.daemons (cfg.dstIp host firstThread)).stream ++ bytes }) := by
  refine .of_server (fun idle => ?_) fun taken => ?_
  · exact absurd serves (transfer.idle idle).2.2
  · obtain ⟨opened, system⟩ := transfer.taken taken
    refine ⟨opened, ?_⟩
    rcases step.past_metadata (inv.sorted taken) with step | ⟨rfl, handle, seqQueue, sequencing, waiting, again⟩
    · rcases writes with ⟨rfl, silent⟩ | ⟨seqNo, flag, buf, data, rfl, ran⟩
      · rw [List.append_nil]
        exact property.step system (.server step silent)
      · exact property.step system (.serverSent buf data step ran)
    · rcases writes with ⟨rfl, _⟩ | ⟨seqNo, flag, buf, data, sent, _⟩
      · rw [List.append_nil]
        exact property.passedOver system handle seqQueue sequencing waiting again
      · cases sent

theorem TransferInv.daemon (transfer : TransferInv cfg host P w) (inv : WorldInv cfg w) (sound : cfg.Sound host)
    (property : SystemProperty (cfg.partition host firstThread) P) {server : UInt32} {act : DaemonAct}
    (step : DaemonStep (cfg.disk server) (w.ArrivesAt server) (w.daemons server) act d) :
    TransferInv cfg host P (w.setDaemon server d) := by
  by_cases here : cfg.dstIp host firstThread = server
  · subst here
    cases step with
    | noSocket => exact transfer.moved fun _ _ => ⟨nofun, nofun⟩
    | socket => exact transfer.moved fun _ _ => ⟨nofun, nofun⟩
    | receiveError => exact transfer.moved fun _ _ => ⟨nofun, nofun⟩
    | @receive datagram packet file handle recvBuffer rcvPkt atReceive arrives decoded opened =>
      have noClient := inv.waiting _ (.inr atReceive)
      refine .of_server (fun idle => by cases idle) fun taken => ?_
      obtain ⟨other, source, destination, contents⟩ := inv.arrives arrives
      have same : datagram.source = clientAddress host firstThread := by
        rw [← replyAddress_eq datagram.source]
        exact Option.some.inj taken
      obtain ⟨rfl, _⟩ := clientAddress_inj (source.symm.trans same)
      have before : (w.threads other firstThread).stage ≠ .loop := fun going => by
        cases (inv.partner other going).symm.trans noClient
      rcases contents with metadata | ⟨going, _⟩
      · obtain ⟨name, zeros⟩ :=
          openDestination_metadata sound.short sound.free sound.fopen sound.writes metadata decoded opened
        refine ⟨name, ?_⟩
        obtain ⟨windows, client⟩ := inv.untouched other before
        have start : { w.view cfg other with server := serverStart handle, stream := (w.view cfg other).stream } =
            systemStart (cfg.partition other firstThread) handle := by
          rw [World.view, client, windows, (inv.early other firstThread before).1, inv.no_data before,
            (transfer.idle noClient).1]
          rfl
        have first := property.start zeros
        rw [← start] at first
        exact first
      · exact absurd going before
    | noConnection => exact transfer.moved fun _ _ => ⟨nofun, nofun⟩
    | connect atConnect => exact transfer.moved fun notConnect _ => absurd atConnect notConnect
    | write buf data serves _ step ran =>
      exact transfer.served inv property serves step (.inr ⟨_, _, buf, data, rfl, ran⟩)
    | serve serves _ step silent =>
      have served := transfer.served inv property serves step (.inl ⟨rfl, silent⟩)
      rwa [List.append_nil] at served
    | exit => exact transfer.moved fun _ _ => ⟨nofun, nofun⟩
  · refine transfer.of_view ?_ (World.view_setDaemon_other w here d)
    rw [World.setDaemon_daemons, if_neg here]

/-- Every step of the world keeps it, when control packets are read whole. -/
theorem TransferInv.step (transfer : TransferInv cfg host P w) (inv : WorldInv cfg w) (sound : cfg.Sound host)
    (property : SystemProperty (cfg.partition host firstThread) P)
    {e : WorldEvent} {w' : World} (step : WorldStep cfg w e w')
    (aligned : ∀ unread incoming, e = .read unread incoming → 6 ∣ unread.length ∧ 6 ≤ incoming.length) :
    TransferInv cfg host P w' := by
  cases step with
  | silent step => exact transfer.quiet inv property step nofun rfl nofun
  | send step => exact transfer.send inv property step
  | accept step _ taken =>
    refine transfer.quiet inv property step (fun server same => ?_) rfl nofun
    cases same
    exact taken
  | read step unread => exact transfer.read inv property step unread (aligned _ _ rfl)
  | close step => exact transfer.quiet inv property step nofun rfl nofun
  | daemon step => exact transfer.daemon inv sound property step
  | connect step => exact transfer.daemon inv sound property step

end Step

section Run

variable {cfg : Setting} {w : World} {events : List WorldEvent} {host : UInt32}

theorem worldRun_transferInv {P : SystemState → Prop} (property : SystemProperty (cfg.partition host firstThread) P)
    (sound : cfg.Sound host) (run : WorldRun cfg events w) (whole : ReadsWhole events) :
    TransferInv cfg host P w := by
  refine Run.invariant (fun events w => ReadsWhole events → TransferInv cfg host P w)
    (fun _ => .start cfg host P) ?_ run whole
  intro events w e w' before ih step whole
  refine (ih fun unread incoming member => whole unread incoming (List.mem_append_left _ member)).step
    (worldRun_inv before) sound property step fun unread incoming same => whole unread incoming ?_
  rw [same]
  exact List.mem_concat_self

/-- The first thread in its loop and its server, whose file has the name that the
thread was given, are a system of their own. -/
theorem worldRun_systemInv (sound : cfg.Sound host) (run : WorldRun cfg events w) (whole : ReadsWhole events)
    (inLoop : (w.threads host firstThread).stage = .loop) :
    (w.daemons (cfg.dstIp host firstThread)).file = some ((cfg.dstFilename host firstThread).take 19) ∧
      ∃ k filled, SystemInv (cfg.partition host firstThread) k filled (w.view cfg host) :=
  (worldRun_transferInv (systemProperty_inv sound.short) sound run whole).taken
    ((worldRun_inv run).partner host inLoop)

theorem WorldInv.in_loop_of_left (inv : WorldInv cfg w) {exhausted : Bool}
    (left : (w.threads host firstThread).client = .left exhausted) :
    (w.threads host firstThread).stage = .loop := by
  by_contra before
  cases left.symm.trans (inv.untouched host before).2

end Run

end UCP
