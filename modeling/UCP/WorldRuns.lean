import UCP.World

namespace UCP

/-- What a datagram on the network can be: the metadata packet of a thread, or a
packet from the first partition of a client whose first thread is in its loop. -/
def Sent (cfg : Setting) (w : World) (datagram : UdpDatagram) : Prop :=
  ∃ host idx, datagram.source = clientAddress host idx ∧
    datagram.destination = serverAddress (cfg.dstIp host idx) idx ∧
    (IsMetadata (cfg.context host idx) (cfg.partition host idx) datagram.bytes ∨
      (idx = firstThread ∧ (w.threads host firstThread).stage = .loop ∧
        SegmentDatagram (cfg.partition host firstThread) datagram.bytes))

/-- A thread is in its loop only when the server that it sends to has connected
to it, which happens to first threads only. -/
structure WorldInv (cfg : Setting) (w : World) : Prop where
  drawn : ∀ host, Drawn (cfg.partition host firstThread) (w.windows host) (w.threads host firstThread)
  early : ∀ host idx, (w.threads host idx).stage ≠ .loop →
    (w.threads host idx).handle = openPartition (cfg.partition host idx) ∧ (w.threads host idx).children = []
  untouched : ∀ host, (w.threads host firstThread).stage ≠ .loop →
    w.windows host = clientWindowsInit ∧ (w.threads host firstThread).client = .get
  first : ∀ host idx, (w.threads host idx).stage = .loop → idx = firstThread
  children : ∀ host idx, ∀ server ∈ (w.threads host idx).children,
    (w.daemons server).client = some (clientAddress host idx)
  partner : ∀ host, (w.threads host firstThread).stage = .loop →
    (w.daemons (cfg.dstIp host firstThread)).client = some (clientAddress host firstThread)
  client : ∀ server address, (w.daemons server).client = some address →
    ∃ host, address = clientAddress host firstThread ∧ cfg.dstIp host firstThread = server
  waiting : ∀ server, (w.daemons server).pc = .bind ∨ (w.daemons server).pc = .receive → (w.daemons server).client = none
  network : ∀ datagram ∈ w.network, Sent cfg w datagram

section Step

variable {cfg : Setting} {w : World} {host : UInt32} {idx : Fin numThreads} {windows : ClientWindows}
  {t : ThreadState} {act : ThreadAct} {datagram : UdpDatagram}

theorem WorldInv.start (cfg : Setting) : WorldInv cfg (worldStart cfg) where
  drawn host := ⟨0, openPartition_readHandle _, fun p member => absurd member List.not_mem_nil⟩
  early host idx _ := ⟨rfl, rfl⟩
  untouched host _ := ⟨rfl, rfl⟩
  first host idx inLoop := by cases inLoop
  children host idx server member := absurd member List.not_mem_nil
  partner host inLoop := by cases inLoop
  client server address taken := by cases taken
  waiting server _ := rfl
  network datagram member := absurd member List.not_mem_nil

/-- A thread that a server has taken as its client is the first one of its host,
and sends to that server. -/
theorem WorldInv.taken (inv : WorldInv cfg w) {server : UInt32}
    (taken : (w.daemons server).client = some (clientAddress host idx)) :
    idx = firstThread ∧ cfg.dstIp host firstThread = server := by
  obtain ⟨host', same, destination⟩ := inv.client server _ taken
  obtain ⟨rfl, first⟩ := clientAddress_inj same
  exact ⟨first, destination⟩

/-- What a step of a thread leaves of its part of the invariant. -/
theorem WorldInv.local (inv : WorldInv cfg w)
    (step : BlockThreadStep (cfg.context host idx) (w.windows host) (w.threads host idx) act windows t)
    (accepted : ∀ server, act = .accept server → (w.daemons server).client = some (clientAddress host idx)) :
    (t.stage ≠ .loop → (w.threads host idx).stage ≠ .loop ∧ windows = w.windows host ∧
      t.handle = openPartition (cfg.partition host idx) ∧ t.children = [] ∧ t.client = (w.threads host idx).client) ∧
    (t.stage = .loop → idx = firstThread ∧ (w.daemons (cfg.dstIp host idx)).client = some (clientAddress host idx)) ∧
    (∀ server ∈ t.children, (w.daemons server).client = some (clientAddress host idx)) ∧
    ∀ bytes, act = .send bytes → IsMetadata (cfg.context host idx) (cfg.partition host idx) bytes ∨
      (idx = firstThread ∧ t.stage = .loop ∧ SegmentDatagram (cfg.partition host firstThread) bytes) := by
  by_cases inLoop : (w.threads host idx).stage = .loop
  · obtain rfl := inv.first host idx inLoop
    obtain ⟨stays, children, sends⟩ := step.in_loop inLoop (inv.drawn host)
    refine ⟨fun out => absurd stays out, fun _ => ⟨rfl, inv.partner host inLoop⟩, fun server member => ?_,
      fun bytes sent => .inr ⟨rfl, stays, sends bytes sent⟩⟩
    rcases children server member with old | new
    · exact inv.children host firstThread server old
    · exact accepted server new
  · obtain ⟨handle, noChildren⟩ := inv.early host idx inLoop
    obtain ⟨sameWindows, sameHandle, sameClient, ⟨server, rfl, going, children⟩ | ⟨out, children, quiet⟩⟩ :=
      step.before_loop inLoop handle
    · have taken := accepted server rfl
      obtain ⟨rfl, destination⟩ := inv.taken taken
      refine ⟨fun out => absurd going out, fun _ => ⟨rfl, destination ▸ taken⟩, fun other member => ?_, nofun⟩
      rw [children, noChildren, List.mem_singleton] at member
      rw [member]
      exact taken
    · refine ⟨fun _ => ⟨inLoop, sameWindows, sameHandle.trans handle, children.trans noChildren, sameClient⟩,
        fun going => absurd going out, fun other member => ?_, fun bytes sent => .inl ?_⟩
      · rw [children, noChildren] at member
        cases member
      · rcases quiet with rfl | ⟨bytes', rfl, isMetadata⟩
        · cases sent
        · cases sent
          exact isMetadata

theorem Sent.mono {w' : World} (sent : Sent cfg w datagram)
    (stays : ∀ host, (w.threads host firstThread).stage = .loop → (w'.threads host firstThread).stage = .loop) :
    Sent cfg w' datagram := by
  obtain ⟨host, idx, source, destination, isMetadata | ⟨rfl, inLoop, isData⟩⟩ := sent
  · exact ⟨host, idx, source, destination, .inl isMetadata⟩
  · exact ⟨host, firstThread, source, destination, .inr ⟨rfl, stays host inLoop, isData⟩⟩

theorem WorldInv.thread (inv : WorldInv cfg w)
    (step : BlockThreadStep (cfg.context host idx) (w.windows host) (w.threads host idx) act windows t)
    (accepted : ∀ server, act = .accept server → (w.daemons server).client = some (clientAddress host idx)) :
    WorldInv cfg (w.setThread host idx windows t) := by
  obtain ⟨out, inLoop, children, _⟩ := inv.local step accepted
  have drawn := step.drawn (c := cfg.partition host firstThread)
  -- a thread other than the first leaves the windows alone
  have sameWindows : idx ≠ firstThread → windows = w.windows host := fun other =>
    (out fun going => other (inLoop going).1).2.1
  have stays : ∀ host', (w.threads host' firstThread).stage = .loop →
      ((w.setThread host idx windows t).threads host' firstThread).stage = .loop := by
    intro host' going
    rw [World.setThread_threads]
    split
    · rename_i here
      obtain ⟨rfl, rfl⟩ := here
      by_contra notLoop
      exact (out notLoop).1 going
    · exact going
  refine ⟨fun host' => ?_, fun host' idx' => ?_, fun host' => ?_, fun host' idx' => ?_, fun host' idx' => ?_,
    fun host' => ?_, inv.client, inv.waiting, fun datagram member => (inv.network datagram member).mono stays⟩
  · rw [World.setThread_windows, World.setThread_threads]
    by_cases sameHost : host' = host
    · subst sameHost
      by_cases sameIdx : firstThread = idx
      · subst sameIdx
        rw [if_pos rfl, if_pos ⟨rfl, rfl⟩]
        exact drawn (inv.drawn host')
      · rw [if_pos rfl, if_neg fun here => sameIdx here.2, sameWindows (Ne.symm sameIdx)]
        exact inv.drawn host'
    · rw [if_neg sameHost, if_neg fun here => sameHost here.1]
      exact inv.drawn host'
  · rw [World.setThread_threads]
    split
    · rename_i here
      obtain ⟨rfl, rfl⟩ := here
      exact fun notLoop => ⟨(out notLoop).2.2.1, (out notLoop).2.2.2.1⟩
    · exact inv.early host' idx'
  · rw [World.setThread_windows, World.setThread_threads]
    by_cases sameHost : host' = host
    · subst sameHost
      by_cases sameIdx : firstThread = idx
      · subst sameIdx
        rw [if_pos rfl, if_pos ⟨rfl, rfl⟩]
        intro notLoop
        obtain ⟨before, windowsEq, _, _, clientEq⟩ := out notLoop
        rw [windowsEq, clientEq]
        exact inv.untouched host' before
      · rw [if_pos rfl, if_neg fun here => sameIdx here.2, sameWindows (Ne.symm sameIdx)]
        exact inv.untouched host'
    · rw [if_neg sameHost, if_neg fun here => sameHost here.1]
      exact inv.untouched host'
  · rw [World.setThread_threads]
    split
    · rename_i here
      obtain ⟨rfl, rfl⟩ := here
      exact fun going => (inLoop going).1
    · exact inv.first host' idx'
  · rw [World.setThread_threads]
    split
    · rename_i here
      obtain ⟨rfl, rfl⟩ := here
      exact children
    · exact inv.children host' idx'
  · rw [World.setThread_threads]
    split
    · rename_i here
      obtain ⟨rfl, rfl⟩ := here
      exact fun going => (inLoop going).2
    · exact inv.partner host'

theorem WorldInv.sent (inv : WorldInv cfg w) (sent : Sent cfg w datagram) :
    WorldInv cfg { w with network := datagram :: w.network } where
  drawn := inv.drawn
  early := inv.early
  untouched := inv.untouched
  first := inv.first
  children := inv.children
  partner := inv.partner
  client := inv.client
  waiting := inv.waiting
  network other member := by
    rcases List.mem_cons.mp member with rfl | old
    · exact sent
    · exact inv.network other old

/-- A server can change as long as it keeps its client. -/
theorem WorldInv.setDaemon (inv : WorldInv cfg w) {server : UInt32} {d : DaemonState}
    (keeps : ∀ address, (w.daemons server).client = some address → d.client = some address)
    (client : ∀ address, d.client = some address → ∃ host, address = clientAddress host firstThread ∧
      cfg.dstIp host firstThread = server)
    (waiting : d.pc = .bind ∨ d.pc = .receive → d.client = none) : WorldInv cfg (w.setDaemon server d) := by
  have kept : ∀ server' address, (w.daemons server').client = some address →
      ((w.setDaemon server d).daemons server').client = some address := by
    intro server' address taken
    rw [World.setDaemon_daemons]
    split
    · rename_i here
      subst here
      exact keeps address taken
    · exact taken
  refine ⟨inv.drawn, inv.early, inv.untouched, inv.first, fun host idx server' member => ?_, fun host going => ?_,
    fun server' address => ?_, fun server' => ?_, fun datagram member => (inv.network datagram member).mono fun _ => id⟩
  · exact kept server' _ (inv.children host idx server' member)
  · exact kept _ _ (inv.partner host going)
  · rw [World.setDaemon_daemons]
    split
    · rename_i here
      subst here
      exact client address
    · exact inv.client server' address
  · rw [World.setDaemon_daemons]
    split
    · exact waiting
    · exact inv.waiting server'

/-- A datagram that a server may receive comes from a first thread that sends
to this server. -/
theorem WorldInv.arrives (inv : WorldInv cfg w) {server : UInt32} (arrives : w.ArrivesAt server datagram) :
    ∃ host, datagram.source = clientAddress host firstThread ∧ cfg.dstIp host firstThread = server ∧
      (IsMetadata (cfg.context host firstThread) (cfg.partition host firstThread) datagram.bytes ∨
        ((w.threads host firstThread).stage = .loop ∧
          SegmentDatagram (cfg.partition host firstThread) datagram.bytes)) := by
  obtain ⟨host, idx, source, destination, contents⟩ := inv.network datagram arrives.1
  obtain ⟨rfl, rfl⟩ := serverAddress_inj (destination.symm.trans arrives.2)
  exact ⟨host, source, rfl, contents.imp_right And.right⟩

theorem WorldInv.daemon (inv : WorldInv cfg w) {server : UInt32} {d : DaemonState} {act : DaemonAct}
    (step : DaemonStep (cfg.disk server) (w.ArrivesAt server) (w.daemons server) act d) :
    WorldInv cfg (w.setDaemon server d) := by
  obtain ⟨_, ⟨sameClient, back⟩ | ⟨waited, connecting, datagram, arrives, taken⟩⟩ := step.effect
  · refine inv.setDaemon ?_ ?_ ?_
    · exact fun address => sameClient.trans
    · exact fun address taken => inv.client server address (sameClient.symm.trans taken)
    · exact fun waits => sameClient.trans (inv.waiting server (back waits))
  · obtain ⟨host, source, destination, _⟩ := inv.arrives arrives
    refine inv.setDaemon ?_ ?_ ?_
    · intro address old
      rw [inv.waiting server waited] at old
      cases old
    · intro address new
      cases taken.symm.trans new
      exact ⟨host, source, destination⟩
    · rw [connecting]
      rintro (⟨⟨⟩⟩ | ⟨⟨⟩⟩)

/-- Every step of the world keeps the invariant. -/
theorem WorldInv.step (inv : WorldInv cfg w) {e : WorldEvent} {w' : World} (step : WorldStep cfg w e w') :
    WorldInv cfg w' := by
  cases step with
  | silent step => exact inv.thread step nofun
  | @send host idx windows t bytes step =>
    have next := inv.thread step nofun
    obtain ⟨_, _, _, sends⟩ := inv.local step nofun
    refine next.sent ⟨host, idx, rfl, rfl, (sends bytes rfl).imp_right fun isData => ?_⟩
    obtain ⟨rfl, going, drawn⟩ := isData
    refine ⟨rfl, ?_, drawn⟩
    rw [World.setThread_threads, if_pos ⟨rfl, rfl⟩]
    exact going
  | accept step _ taken =>
    refine inv.thread step fun server same => ?_
    cases same
    exact taken
  | @read host idx windows t server incoming rest step _ =>
    have next := inv.thread step nofun
    exact next.setDaemon (fun _ => id) (inv.client server) (inv.waiting server)
  | close step => exact inv.thread step nofun
  | daemon step => exact inv.daemon step
  | connect step => exact inv.daemon step

end Step

section Run

/-- Every read in the run starts at a control packet and holds it whole. -/
def ReadsWhole (events : List WorldEvent) : Prop :=
  ∀ unread incoming, .read unread incoming ∈ events → 6 ∣ unread.length ∧ 6 ≤ incoming.length

theorem ReadsWhole.append {events more : List WorldEvent} (whole : ReadsWhole events)
    (wholeMore : ReadsWhole more) :
    ReadsWhole (events ++ more) := by
  intro unread incoming member
  rcases List.mem_append.mp member with old | new
  · exact whole unread incoming old
  · exact wholeMore unread incoming new

theorem readsWhole_other : ReadsWhole [.other] := fun _ _ member => by cases List.mem_singleton.mp member

variable {cfg : Setting} {w w' : World} {events more : List WorldEvent} {host : UInt32} {idx : Fin numThreads}

theorem worldRun_inv (run : WorldRun cfg events w) : WorldInv cfg w :=
  Run.invariant (fun _ w => WorldInv cfg w) (.start cfg) (fun _ inv step => inv.step step) run

/-- A thread that has failed does nothing more, and one that waits for a connection
at most accepts one. -/
theorem BlockThreadStep.stuck {ctx : ThreadContext} {windows windows' : ClientWindows} {t t' : ThreadState}
    {act : ThreadAct} (step : BlockThreadStep ctx windows t act windows' t')
    (stuck : t.stage = .failed ∨ t.stage = .accept) : t'.stage = .loop := by
  have busy {stage : BlockThreadStage} (here : t.stage = stage) (notFailed : stage ≠ .failed)
      (notAccept : stage ≠ .accept) : False := by
    rcases stuck with failed | waits
    · exact notFailed (here.symm.trans failed)
    · exact notAccept (here.symm.trans waits)
  cases step with
  | noSocket here => exact (busy here nofun nofun).elim
  | socket here => exact (busy here nofun nofun).elim
  | noServer here => exact (busy here nofun nofun).elim
  | server _ here => exact (busy here nofun nofun).elim
  | metadata _ here => exact (busy here nofun nofun).elim
  | accept => rfl
  | get inLoop => exact inLoop
  | send _ inLoop => exact inLoop
  | append inLoop => exact inLoop
  | tickAccept _ inLoop => exact inLoop
  | tickRead _ inLoop => exact inLoop
  | tickClose inLoop => exact inLoop
  | tickEnd inLoop => exact inLoop

/-- A thread other than the first that has failed or waits for a connection does so
for ever. -/
theorem worldRun_stuck (run : WorldRun cfg events w) (goesOn : Run (WorldStep cfg) w more w')
    (other : idx ≠ firstThread)
    (stuck : (w.threads host idx).stage = .failed ∨ (w.threads host idx).stage = .accept) :
    w'.threads host idx = w.threads host idx := by
  refine goesOn.invariant (fun _ v => v.threads host idx = w.threads host idx) rfl ?_
  intro before v e v' reached same step
  have inv := worldRun_inv ((run.append reached).next step)
  have thread {other' : UInt32} {idx' : Fin numThreads} {act : ThreadAct} {windows : ClientWindows} {t : ThreadState}
      (here : v'.threads host idx = (v.setThread other' idx' windows t).threads host idx)
      (step : BlockThreadStep (cfg.context other' idx') (v.windows other') (v.threads other' idx') act windows t) :
      v'.threads host idx = w.threads host idx := by
    rw [World.setThread_threads] at here
    split at here
    · rename_i acts
      obtain ⟨rfl, rfl⟩ := acts
      rw [← same] at stuck
      exact absurd (inv.first host idx (here ▸ step.stuck stuck)) other
    · rw [here, same]
  cases step with
  | silent step => exact thread rfl step
  | send step => exact thread rfl step
  | accept step => exact thread rfl step
  | read step => exact thread rfl step
  | close step => exact thread rfl step
  | daemon step => exact same
  | connect step => exact same

end Run

section Building

/-- One step of the world, in which a tick makes one call at most and ends with it. -/
inductive TickStep (cfg : Setting) (w : World) : List WorldEvent → World → Prop
  | silent {host idx windows t} :
      BlockThreadStep (cfg.context host idx) (w.windows host) (w.threads host idx) .silent windows t →
      TickStep cfg w [.other] (w.setThread host idx windows t)
  | send {host idx windows t bytes} :
      BlockThreadStep (cfg.context host idx) (w.windows host) (w.threads host idx) (.send bytes) windows t →
      TickStep cfg w [.other] { w.setThread host idx windows t with network :=
        ⟨clientAddress host idx, serverAddress (cfg.dstIp host idx) idx, bytes⟩ :: w.network }
  | accept {host idx windows t server} : (w.threads host idx).stage = .accept →
      BlockThreadStep (cfg.context host idx) (w.windows host) (w.threads host idx) (.accept server) windows t →
      (w.daemons server).connected = true → (w.daemons server).client = some (clientAddress host idx) →
      TickStep cfg w [.other] (w.setThread host idx windows t)
  | read {host idx windows t server incoming rest} :
      BlockThreadStep (cfg.context host idx) (w.windows host) (w.threads host idx) (.read server incoming) windows t →
      (w.daemons server).stream = incoming ++ rest →
      TickStep cfg w [.read (w.daemons server).stream incoming, .other]
        ((w.setThread host idx windows { t with client := afterTick windows }).setDaemon server
          { w.daemons server with stream := rest })
  | daemon {host d} : DaemonStep (cfg.disk host) (w.ArrivesAt host) (w.daemons host) .silent d →
      TickStep cfg w [.other] (w.setDaemon host d)
  | connect {host d client idx} : DaemonStep (cfg.disk host) (w.ArrivesAt host) (w.daemons host) .connect d →
      (w.daemons host).client = some (clientAddress client idx) → (w.threads client idx).listening = true →
      TickStep cfg w [.other] (w.setDaemon host d)

variable {cfg : Setting} {start w w' : World} {labels : List (List WorldEvent)} {events : List WorldEvent}
  {host : UInt32}

/-- What a thread reads, it reads in a tick, which it can end. -/
theorem BlockThreadStep.read_ends {ctx : ThreadContext} {windows windows' : ClientWindows} {t t' : ThreadState}
    {server : UInt32} {incoming : List UInt8} (step : BlockThreadStep ctx windows t (.read server incoming) windows' t') :
    BlockThreadStep ctx windows' t' .silent windows' { t' with client := afterTick windows' } := by
  cases step with
  | tickRead _ inLoop atTick => exact .tickEnd inLoop atTick

theorem TickStep.run (step : TickStep cfg w events w') : Run (WorldStep cfg) w events w' := by
  cases step with
  | silent step => exact .next .start (.silent step)
  | send step => exact .next .start (.send step)
  | accept _ step connected client => exact .next .start (.accept step connected client)
  | @read host idx windows t server incoming rest step stream =>
    have read := Run.next .start (WorldStep.read step stream)
    generalize after : (w.setThread host idx windows t).setDaemon server _ = middle at read
    have ends : BlockThreadStep (cfg.context host idx) (middle.windows host) (middle.threads host idx) .silent windows
        { t with client := afterTick windows } := by
      rw [← after, World.setDaemon_windows, World.setThread_windows_self, World.setDaemon_threads, World.setThread_self]
      exact step.read_ends
    have whole := read.next (.silent ends)
    subst after
    simpa only [World.setThread, World.setDaemon, Function.update_idem, Function.update_self, List.nil_append,
      List.singleton_append] using whole
  | daemon step => exact .next .start (.daemon step)
  | connect step client listening => exact .next .start (.connect step client listening)

theorem tickRun (run : Run (TickStep cfg) start labels w) : Run (WorldStep cfg) start labels.flatten w := by
  rw [← List.flatMap_id]
  obtain ⟨_, run', rfl⟩ := run.expand (· = ·) id (fun same step => ⟨_, same ▸ step.run, rfl⟩) rfl
  exact run'

/-- The run goes on with a thread that is known. -/
theorem tickRun_silent (run : Run (TickStep cfg) start labels w) {idx : Fin numThreads}
    {windows windows' : ClientWindows} {t t' : ThreadState} (thread : w.threads host idx = t)
    (same : w.windows host = windows)
    (step : BlockThreadStep (cfg.context host idx) windows t .silent windows' t') :
    ∃ w', Run (TickStep cfg) start (labels ++ [[.other]]) w' ∧ w'.threads host idx = t' ∧
      w'.windows host = windows' ∧ w'.daemons = w.daemons ∧ w'.network = w.network ∧
      ∀ idx', idx' ≠ idx → w'.threads host idx' = w.threads host idx' := by
  subst thread same
  refine ⟨_, .next run (.silent step), World.setThread_self, World.setThread_windows_self, rfl, rfl, ?_⟩
  intro idx' other
  rw [World.setThread_threads, if_neg fun here => other here.2]

theorem tickRun_send (run : Run (TickStep cfg) start labels w) {idx : Fin numThreads}
    {windows windows' : ClientWindows} {t t' : ThreadState} {bytes : List UInt8} (thread : w.threads host idx = t)
    (same : w.windows host = windows)
    (step : BlockThreadStep (cfg.context host idx) windows t (.send bytes) windows' t') :
    ∃ w', Run (TickStep cfg) start (labels ++ [[.other]]) w' ∧ w'.threads host idx = t' ∧
      w'.windows host = windows' ∧ w'.daemons = w.daemons ∧
      w'.network = ⟨clientAddress host idx, serverAddress (cfg.dstIp host idx) idx, bytes⟩ :: w.network ∧
      ∀ idx', idx' ≠ idx → w'.threads host idx' = w.threads host idx' := by
  subst thread same
  refine ⟨_, .next run (.send step), ?_, ?_, rfl, rfl, fun idx' other => ?_⟩
  · change (w.setThread host idx windows' t').threads host idx = t'
    exact World.setThread_self
  · change (w.setThread host idx windows' t').windows host = windows'
    exact World.setThread_windows_self
  · change (w.setThread host idx windows' t').threads host idx' = _
    rw [World.setThread_threads, if_neg fun here => other here.2]

theorem tickRun_daemon (run : Run (TickStep cfg) start labels w) {server : UInt32} {d d' : DaemonState}
    (daemon : w.daemons server = d) (step : DaemonStep (cfg.disk server) (w.ArrivesAt server) d .silent d') :
    ∃ w', Run (TickStep cfg) start (labels ++ [[.other]]) w' ∧ w'.daemons server = d' ∧ w'.threads = w.threads ∧
      w'.windows = w.windows ∧ w'.network = w.network := by
  subst daemon
  exact ⟨_, .next run (.daemon step), World.setDaemon_self, rfl, rfl, rfl⟩

/-- The way to a connection for a thread and a server that have just been started:
the first thread sends its metadata, the server receives it, opens its file and
connects, and the thread accepts. -/
theorem tickRun_connects (cfg : Setting) (host : UInt32) (start : World)
    (free : 0 ∉ cfg.dstFilename host firstThread)
    (thread : start.threads host firstThread = threadStart (cfg.partition host firstThread))
    (windows : start.windows host = clientWindowsInit)
    (daemon : start.daemons (cfg.dstIp host firstThread) =
      daemonStart (cfg.handle (cfg.dstIp host firstThread))) :
    ∃ labels w, Run (TickStep cfg) start labels w ∧ ReadsWhole labels.flatten ∧
      w.threads host firstThread = { threadStart (cfg.partition host firstThread) with
        stage := .loop, listening := true, children := [cfg.dstIp host firstThread] } ∧
      w.windows host = clientWindowsInit ∧ (w.daemons (cfg.dstIp host firstThread)).pc = .serve ∧
      (w.daemons (cfg.dstIp host firstThread)).server.receiving = receivingThreadStart ∧
      (w.daemons (cfg.dstIp host firstThread)).stream = [] ∧
      ∃ bytes, w.network = ⟨clientAddress host firstThread,
        serverAddress (cfg.dstIp host firstThread) firstThread, bytes⟩ :: start.network := by
  obtain ⟨packet, made, isMetadata, name⟩ := ucpPacketInitMetadata_eq (cfg.dstFilename host firstThread)
    (cfg.dstFilename host firstThread).length (UInt8.ofNat firstThread)
    (UInt32.ofNat (cfg.partition host firstThread).length)
  have encodable : packet.Encodable := .metadata isMetadata
  have sends := sendDatagram_eq encodable (Buffer.zeros udpPacketSize)
  obtain ⟨_, _, _, _, _, received, decoded, fields⟩ :=
    encodable.receive (Buffer.zeros udpPacketSize) (Buffer.zeros udpPacketSize) (ucpPacketInit 0)
  have loaded : Mem.loadString received.metadataPacket.desinationName.bytes =
      .ok ((cfg.dstFilename host firstThread).take 19) := by
    rw [fields.metadata_eq isMetadata, name]
    exact loadString_desinationName free
  obtain ⟨⟨file, handle⟩, opened⟩ : ∃ opened, openDestination (cfg.disk (cfg.dstIp host firstThread))
      (cfg.handle (cfg.dstIp host firstThread)) received = .ok opened := by
    simp only [openDestination, if_pos (fields.type_eq.trans isMetadata), loaded, bind, Except.bind]
    split
    · exact ⟨_, rfl⟩
    · exact ⟨_, rfl⟩
  -- the thread up to its metadata packet
  obtain ⟨w1, run1, thread1, windows1, daemons1, network1, _⟩ :=
    tickRun_silent .start thread windows (.socket rfl)
  obtain ⟨w2, run2, thread2, windows2, daemons2, network2, _⟩ :=
    tickRun_silent run1 thread1 windows1 (.server true rfl)
  obtain ⟨w3, run3, thread3, windows3, daemons3, network3, _⟩ :=
    tickRun_send run2 thread2 windows2 (.metadata (Buffer.zeros _) rfl made sends)
  -- the server up to its connection
  have daemon3 := (congrFun (daemons3.trans (daemons2.trans daemons1)) _).trans daemon
  obtain ⟨w4, run4, daemon4, threads4, windows4, network4⟩ := tickRun_daemon run3 daemon3 (.socket rfl)
  have arrives : w4.ArrivesAt (cfg.dstIp host firstThread) ⟨clientAddress host firstThread,
      serverAddress (cfg.dstIp host firstThread) firstThread, packet.wire⟩ := by
    rw [World.ArrivesAt, network4, network3]
    exact ⟨List.mem_cons_self .., rfl⟩
  obtain ⟨w5, run5, daemon5, threads5, windows5, network5⟩ :=
    tickRun_daemon run4 daemon4 (.receive _ _ rfl arrives decoded opened)
  have thread5 := (congrFun (congrFun (threads5.trans threads4) host) firstThread).trans thread3
  have connect : DaemonStep (cfg.disk (cfg.dstIp host firstThread)) (w5.ArrivesAt (cfg.dstIp host firstThread))
      (w5.daemons (cfg.dstIp host firstThread)) .connect
      { w5.daemons (cfg.dstIp host firstThread) with pc := .serve, connected := true } := .connect (by rw [daemon5])
  have client5 : (w5.daemons (cfg.dstIp host firstThread)).client = some (clientAddress host firstThread) := by
    rw [daemon5, replyAddress_eq]
  have run6 := run5.next (.connect connect client5 (by rw [thread5]))
  have accept : BlockThreadStep (cfg.context host firstThread) (w5.windows host) (w5.threads host firstThread)
      (.accept (cfg.dstIp host firstThread)) (w5.windows host) { w5.threads host firstThread with
        stage := .loop, children := cfg.dstIp host firstThread :: (w5.threads host firstThread).children } :=
    .accept _ (by rw [thread5]) (by rw [thread5]) (by rw [thread5]; exact List.not_mem_nil)
  have run7 :=
    run6.next (.accept (by rw [World.setDaemon_threads, thread5]) accept (by rw [World.setDaemon_self])
      (by rw [World.setDaemon_self]; exact client5))
  refine ⟨_, _, run7, fun unread incoming member => by simp at member, ?_, ?_, ?_, ?_, ?_, packet.wire, ?_⟩
  · rw [World.setThread_self, thread5]
    rfl
  · rw [World.setThread_windows_self, windows5, windows4, windows3]
  · rw [World.setThread_daemons, World.setDaemon_self]
  · rw [World.setThread_daemons, World.setDaemon_self, daemon5]
    rfl
  · rw [World.setThread_daemons, World.setDaemon_self, daemon5]
    rfl
  · rw [World.setThread_network, World.setDaemon_network, network5, network4, network3, network2, network1]

/-- The clients of all hosts have this partition for the host with address 1. -/
def plainSetting (c : List UInt8) : Setting where
  partition _ _ := c
  dstIp _ _ := 1
  dstFilename _ _ := [97]
  disk _ := ⟨true, fun _ => udpPacketDataSize⟩
  handle _ := openPartition []

end Building

section Results

variable {cfg : Setting} {w : World} {events : List WorldEvent} {host : UInt32}

/-- A server hears of one client only: what may arrive at it is metadata, or a
packet from the first partition of the client that it has connected to. Before it has
a client, it is metadata. -/
theorem daemon_hears_its_client (run : WorldRun cfg events w) {server : UInt32} {datagram : UdpDatagram}
    (arrives : w.ArrivesAt server datagram) :
    ∃ host, datagram.source = clientAddress host firstThread ∧ cfg.dstIp host firstThread = server ∧
      (IsMetadata (cfg.context host firstThread) (cfg.partition host firstThread) datagram.bytes ∨
        ((w.daemons server).client = some datagram.source ∧
          SegmentDatagram (cfg.partition host firstThread) datagram.bytes)) ∧
      ((w.daemons server).client = none →
        IsMetadata (cfg.context host firstThread) (cfg.partition host firstThread) datagram.bytes) := by
  have inv := worldRun_inv run
  obtain ⟨host, source, rfl, isMetadata | ⟨inLoop, isData⟩⟩ := inv.arrives arrives
  · exact ⟨host, source, rfl, .inl isMetadata, fun _ => isMetadata⟩
  · have taken := inv.partner host inLoop
    rw [← source] at taken
    refine ⟨host, source, rfl, .inr ⟨taken, isData⟩, fun noClient => ?_⟩
    cases taken.symm.trans noClient

theorem segment_typeField (c : List UInt8) (i : Nat) : typeField (segment c i).wire = ucpPacketTypeData := by
  have type := typeField_wire (segment_encodable c i) []
  rwa [List.append_nil] at type

/-- The server of host 1 has taken host 0 as its client, which has sent its first
data packet. -/
theorem daemon_hears_its_client_two_packets : ∃ events w datagram, WorldRun (plainSetting twoPackets) events w ∧
    w.ArrivesAt 1 datagram ∧ typeField datagram.bytes = ucpPacketTypeData ∧
    ∃ host, datagram.source = clientAddress host firstThread ∧
      (IsMetadata ((plainSetting twoPackets).context host firstThread) twoPackets datagram.bytes ∨
        ((w.daemons 1).client = some datagram.source ∧ SegmentDatagram twoPackets datagram.bytes)) ∧
      ((w.daemons 1).client = none →
        IsMetadata ((plainSetting twoPackets).context host firstThread) twoPackets datagram.bytes) := by
  obtain ⟨labels, w, run, _, thread, windows, _⟩ :=
    tickRun_connects (plainSetting twoPackets) 0 (worldStart _) (by decide) rfl rfl rfl
  have within : 0 < segmentCount twoPackets := by rw [segmentCount_twoPackets]; exact Nat.two_pos
  obtain ⟨source, read, _⟩ := (openPartition_readHandle twoPackets).next within
  have next : getNextPacket clientWindowsInit (openPartition twoPackets) =
      .ok (some (segment twoPackets 0), clientWindowsInit, source) := by
    simp only [getNextPacket, clientWindowsInit, read]
    rfl
  obtain ⟨w1, run1, thread1, windows1, _⟩ := tickRun_silent run thread windows (.get rfl rfl next)
  obtain ⟨w2, run2, _, _, _, network2, _⟩ := tickRun_send run1 thread1 windows1
    (.send (Buffer.zeros _) rfl rfl (sendDatagram_eq (segment_encodable twoPackets 0) _))
  have arrives : w2.ArrivesAt 1 ⟨clientAddress 0 firstThread, serverAddress 1 firstThread,
      (segment twoPackets 0).wire⟩ := by
    rw [World.ArrivesAt, network2]
    exact ⟨List.mem_cons_self .., rfl⟩
  obtain ⟨host, source, _, contents, early⟩ := daemon_hears_its_client (tickRun run2) arrives
  exact ⟨_, w2, _, tickRun run2, arrives, segment_typeField .., host, source, contents, early⟩

/-- A thread whose `block_thread` has returned. -/
def ThreadState.Returned (t : ThreadState) : Prop :=
  t.stage = .failed ∨ (t.stage = .loop ∧ ∃ exhausted, t.client = .left exhausted)

/-- Only the first thread of a client is ever served. The others send their
metadata packets where no server receives them, and unless they fail on their
way there they wait for a connection for ever. -/
theorem only_first_thread_served (run : WorldRun cfg events w) {host : UInt32} {idx : Fin numThreads}
    (other : idx ≠ firstThread) :
    (w.threads host idx).stage ≠ .loop ∧ ((w.threads host idx).Returned → (w.threads host idx).stage = .failed) ∧
      ∀ server datagram, w.ArrivesAt server datagram → datagram.source ≠ clientAddress host idx := by
  have inv := worldRun_inv run
  have outside : (w.threads host idx).stage ≠ .loop := fun going => other (inv.first host idx going)
  refine ⟨outside, ?_, fun server datagram arrives same => ?_⟩
  · rintro (failed | ⟨going, _⟩)
    · exact failed
    · exact absurd going outside
  · obtain ⟨host', source, _⟩ := inv.arrives arrives
    exact other (clientAddress_inj (same.symm.trans source)).2

/-- The second thread of a host has sent its metadata and waits, while the first
one is served. -/
theorem only_first_thread_served_second : ∃ events w, WorldRun (plainSetting twoPackets) events w ∧
    (w.threads 0 firstThread).stage = .loop ∧ (w.threads 0 ⟨1, by decide⟩).stage = .accept ∧
    (∃ datagram ∈ w.network, datagram.source = clientAddress 0 ⟨1, by decide⟩) ∧
    ¬(w.threads 0 ⟨1, by decide⟩).Returned ∧
    ∀ server datagram, w.ArrivesAt server datagram → datagram.source ≠ clientAddress 0 ⟨1, by decide⟩ := by
  have other : (⟨1, by decide⟩ : Fin numThreads) ≠ firstThread := by decide
  obtain ⟨packet, made, isMetadata, _⟩ :=
    ucpPacketInitMetadata_eq [97] 1 (UInt8.ofNat 1) (UInt32.ofNat twoPackets.length)
  have sends := sendDatagram_eq (.metadata isMetadata) (Buffer.zeros udpPacketSize)
  have thread0 : (worldStart (plainSetting twoPackets)).threads 0 ⟨1, by decide⟩ = threadStart twoPackets := rfl
  have nothing : Run (TickStep (plainSetting twoPackets)) (worldStart (plainSetting twoPackets)) [] _ := .start
  obtain ⟨w1, run1, thread1, windows1, daemons1, _, same1⟩ := tickRun_silent nothing thread0 rfl (.socket rfl)
  obtain ⟨w2, run2, thread2, windows2, daemons2, _, same2⟩ :=
    tickRun_silent run1 thread1 windows1 (.server true rfl)
  obtain ⟨w3, run3, thread3, windows3, daemons3, network3, same3⟩ :=
    tickRun_send run2 thread2 windows2 (.metadata (Buffer.zeros _) rfl made sends)
  have thread := ((same3 _ other.symm).trans (same2 _ other.symm)).trans (same1 _ other.symm)
  have daemon := congrFun (daemons3.trans (daemons2.trans daemons1)) 1
  obtain ⟨more, w, goesOn, _, served, _, _, _, _, bytes, network⟩ :=
    tickRun_connects (plainSetting twoPackets) 0 w3 (by decide) thread windows3 daemon
  have run : WorldRun (plainSetting twoPackets) _ w := tickRun (run3.append goesOn)
  have waits : (w.threads 0 ⟨1, by decide⟩).stage = .accept := by
    rw [worldRun_stuck (tickRun run3) (tickRun goesOn) other (by rw [thread3]; exact .inr rfl), thread3]
  obtain ⟨_, returned, unheard⟩ := only_first_thread_served run other
  have sent : (⟨clientAddress 0 ⟨1, by decide⟩, serverAddress 1 ⟨1, by decide⟩, packet.wire⟩ : UdpDatagram) ∈
      w.network := by
    rw [network, network3]
    exact List.mem_cons_of_mem _ (List.mem_cons_self ..)
  refine ⟨_, w, run, congrArg ThreadState.stage served, waits, ⟨_, sent, rfl⟩, fun ended => ?_, unheard⟩
  cases waits.symm.trans (returned ended)

end Results

end UCP
