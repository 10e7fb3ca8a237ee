import UCP.TcpThreadRefinement
import UCP.TcpWorld
import UCP.WorldTransfer

namespace UCP

/-- The connections of a thread that its server has, also in the middle of a tick. -/
structure TcpBlockThread.Serves (t : TcpBlockThread) (server : TcpServer) (children : List UInt32) : Prop where
  listening : t.base.listening = true
  peers : Peers server t.peer children
  scan : ∀ scan ∈ t.scan, t.base.stage = .loop ∧ t.base.client = .tick ∧ server.sd ≤ scan.sd ∧
    ∀ ready ∈ scan.readFds.members, scan.sd ≤ ready → ready ∈ server.serverFdSet.members

/-- What its server says about the connections of a thread. -/
structure TcpBlockThread.Holds (t : TcpBlockThread) (children : List UInt32) : Prop where
  early : t.base.stage = .createSocket ∨ t.base.stage = .startServer → t.server = none
  unstarted : t.server = none → t.scan = none ∧ children = []
  serves : ∀ server, t.server = some server → t.Serves server children

/-- A thread with its server and one with a list of connections are the same. -/
def TcpBlockThread.Mirrors (t : TcpBlockThread) (a : ThreadState) : Prop :=
  ∃ children, a = { t.base with children } ∧ t.Holds children

section Thread

variable {ctx : ThreadContext} {windows windows' : ClientWindows} {t t' : TcpBlockThread}
  {a base base' : ThreadState} {act : Option ThreadAct} {act' : ThreadAct}

/-- Steps outside accepts and ticks do without the connections. -/
theorem BlockThreadStep.with_children (step : BlockThreadStep ctx windows base act' windows' base')
    (notAccept : base.stage ≠ .accept) (notTick : base.client ≠ .tick) (children : List UInt32) :
    BlockThreadStep ctx windows { base with children } act' windows' { base' with children } := by
  cases step with
  | noSocket before => exact .noSocket before
  | socket before => exact .socket before
  | noServer before => exact .noServer before
  | server listening before => exact .server listening before
  | metadata buf before made sent => exact .metadata buf before made sent
  | accept server before => exact absurd before notAccept
  | get inLoop atGet read => exact .get inLoop atGet read
  | send buf inLoop atSend sent => exact .send buf inLoop atSend sent
  | append inLoop atAppend => exact .append inLoop atAppend
  | tickAccept server inLoop atTick => exact absurd atTick notTick
  | tickRead rspPkt inLoop atTick => exact absurd atTick notTick
  | tickClose inLoop atTick => exact absurd atTick notTick
  | tickEnd inLoop atTick => exact absurd atTick notTick

theorem BlockThreadStep.listening_eq (step : BlockThreadStep ctx windows base act' windows' base')
    (notStart : base.stage ≠ .startServer) : base'.listening = base.listening := by
  cases step with
  | server _ before => exact absurd before notStart
  | _ => rfl

theorem CallsHandled.of_foldlM {rspPkt : Int → UcpPacket} {act : TcpCall → Option ThreadAct}
    {calls : List TcpCall} (ran : calls.foldlM (handleCall rspPkt) windows = .ok windows') :
    CallsHandled rspPkt act windows calls ((calls.filterMap act).map some) windows' := by
  induction calls generalizing windows with
  | nil =>
    cases ran
    exact .done
  | cons call calls ih =>
    rw [List.foldlM_cons] at ran
    obtain ⟨middle, handled, later⟩ := Except.bind_eq_ok.mp ran
    have acts : ((call :: calls).filterMap act).map some =
        (act call).toList.map some ++ (calls.filterMap act).map some := by
      cases does : act call <;> simp [does]
    rw [acts]
    exact .call handled (ih later)

/-- A round makes one call at most. -/
theorem tcpServerRound_acts {readFds : FdSet} {accepted : TcpAccepted} {read : Int → ReadResult}
    {server server' : TcpServer} {sd : Int} {calls : List TcpCall} {act : TcpCall → Option ThreadAct}
    (ran : tcpServerRound readFds accepted read server sd = .ok (server', calls)) :
    (calls.filterMap act).head?.toList = calls.filterMap act := by
  obtain ⟨_, _, _, _, served⟩ := tcpServerRound_eq_ok ran
  have few : calls.length ≤ 1 := by
    rw [← List.length_map TcpCall.child, served]
    split <;> simp
  have fewActs := (List.length_filterMap_le act calls).trans few
  rcases found : calls.filterMap act with _ | ⟨first, _ | ⟨second, rest⟩⟩
  · rfl
  · rfl
  · rw [found, List.length_cons, List.length_cons] at fewActs
    omega

/-- A run of at most one step of the thread's own is that step. -/
theorem SharedThreadStep.of_option {act : Option ThreadAct}
    (run : Run (SharedThreadStep ctx) (windows, a) (act.toList.map some) (windows', base)) :
    (act = none ∧ windows' = windows ∧ base = a) ∨
      ∃ act', act = some act' ∧ BlockThreadStep ctx windows a act' windows' base := by
  cases act with
  | none =>
    cases run.eq_of_nil
    exact .inl ⟨rfl, rfl, rfl⟩
  | some act' =>
    cases run.singleton with
    | own step => exact .inr ⟨act', rfl, step⟩

theorem TcpBlockThread.Holds.scan_none {children : List UInt32} (holds : t.Holds children)
    (before : t.base.stage ≠ .loop) : t.scan = none := by
  cases started : t.server with
  | none => exact (holds.unstarted started).1
  | some server =>
    by_contra some
    obtain ⟨scan, same⟩ := Option.ne_none_iff_exists'.mp some
    exact before ((holds.serves server started).scan scan same).1

theorem BlockThreadStep.early (step : BlockThreadStep ctx windows base act' windows' base')
    (notStart : base.stage ≠ .startServer)
    (early : base'.stage = .createSocket ∨ base'.stage = .startServer) : base.stage = .createSocket := by
  cases step <;> simp_all

/-- A step with the server is one with the connections, or nothing. -/
theorem TcpBlockStep.mirrored (step : TcpBlockStep ctx windows t act windows' t') (mirrors : t.Mirrors a) :
    ∃ a', t'.Mirrors a' ∧ ((act = none ∧ windows' = windows ∧ a' = a) ∨
      ∃ act', act = some act' ∧ BlockThreadStep ctx windows a act' windows' a') := by
  obtain ⟨children, rfl, holds⟩ := mirrors
  cases step with
  | @base act _ base step notStart notAccept notTick =>
    refine ⟨_, ⟨children, rfl, ?_, holds.unstarted, fun server member => ?_⟩,
      .inr ⟨act, rfl, step.with_children notAccept notTick children⟩⟩
    · exact fun early => holds.early (.inl (step.early notStart early))
    · obtain ⟨listening, peers, scan⟩ := holds.serves server member
      exact ⟨(step.listening_eq notStart).trans listening, peers,
        fun scan' member' => absurd (scan scan' member').2.1 notTick⟩
  | noServer before =>
    have none := holds.early (.inr before)
    refine ⟨_, ⟨children, rfl, fun _ => none, holds.unstarted, fun server member => ?_⟩,
      .inr ⟨_, rfl, .noServer before⟩⟩
    cases none.symm.trans member
  | notListening before =>
    have nothing := holds.unstarted (holds.early (.inr before))
    exact ⟨_, ⟨children, rfl, fun _ => rfl, fun _ => nothing, fun server member => by cases member⟩,
      .inr ⟨_, rfl, .server false before⟩⟩
  | server before started =>
    obtain ⟨idle, rfl⟩ := holds.unstarted (holds.early (.inr before))
    refine ⟨_, ⟨[], rfl, by simp,
      nofun, fun server member => ?_⟩, .inr ⟨_, rfl, .server true before⟩⟩
    cases member
    exact ⟨rfl, .start started, fun scan member => by cases idle.symm.trans member⟩
  | @peers server peer member same =>
    refine ⟨_, ⟨children, rfl, holds.early, holds.unstarted, fun server' member' => ?_⟩, .inl ⟨rfl, rfl, rfl⟩⟩
    cases member.symm.trans member'
    obtain ⟨listening, peers, scan⟩ := holds.serves server member
    exact ⟨listening, peers.congr same, scan⟩
  | @accept server accepted server' before member admits accepting =>
    obtain ⟨listening, peers, _⟩ := holds.serves server member
    have idle := holds.scan_none (by rw [before]; nofun)
    obtain ⟨room, ⟨_, answer, _⟩ | ⟨nonneg, _, sameSd, maxSd, members, _⟩⟩ := tcpServerAccept_eq_ok accepting
    · cases answer
    · refine ⟨_, ⟨_, rfl, by simp,
        nofun, fun server member => ?_⟩,
        .inr ⟨_, rfl, .accept _ before listening (peers.not_mem admits nonneg)⟩⟩
      cases member
      exact ⟨listening, peers.accept admits room nonneg sameSd maxSd members,
        fun scan member => by cases idle.symm.trans member⟩
  | @select server readFds inLoop atTick idle member registered =>
    obtain ⟨listening, peers, _⟩ := holds.serves server member
    refine ⟨_, ⟨children, rfl, holds.early, fun none => absurd (none.symm.trans member) nofun,
      fun server' member' => ?_⟩,
      .inl ⟨rfl, rfl, rfl⟩⟩
    cases member.symm.trans member'
    refine ⟨listening, peers, fun scan here => ?_⟩
    cases here
    exact ⟨inLoop, atTick, le_rfl, fun ready among _ => registered among⟩
  | @round scan server accepted read server' calls windows' rspPkt scanning member within admits ran handled =>
    obtain ⟨listening, peers, scans⟩ := holds.serves server member
    obtain ⟨inLoop, atTick, above, registered⟩ := scans scan scanning
    obtain ⟨children', runs, peers', stay⟩ := tcpServerRound_simulated (t := { t.base with children }) inLoop
      atTick listening peers (fun ready => registered scan.sd ready le_rfl) admits ran (.of_foldlM handled)
    rw [← tcpServerRound_acts ran] at runs
    have sameSd := (tcpServerRound_eq_ok ran).2.1
    refine ⟨_, ⟨children', rfl, fun early => absurd early (by simp [inLoop]), nofun, fun server member => ?_⟩,
      SharedThreadStep.of_option runs⟩
    cases member
    refine ⟨listening, peers', fun scan' here => ?_⟩
    cases here
    refine ⟨inLoop, atTick, ?_, fun ready among beyond => ?_⟩
    · rw [sameSd]
      exact above.trans (Int.le_of_lt (Int.lt_succ _))
    · have beyond : scan.sd + 1 ≤ ready := beyond
      exact stay ready (registered ready among (by omega)) (by omega)
  | @tickEnd scan server scanning member beyond =>
    obtain ⟨listening, peers, scans⟩ := holds.serves server member
    obtain ⟨inLoop, atTick, _⟩ := scans scan scanning
    refine ⟨_, ⟨children, rfl, holds.early, fun none => absurd (none.symm.trans member) nofun,
      fun server' member' => ?_⟩,
      .inr ⟨_, rfl, .tickEnd inLoop atTick⟩⟩
    cases member.symm.trans member'
    exact ⟨listening, peers, fun scan here => by cases here⟩
  | timeout inLoop atTick idle =>
    refine ⟨_, ⟨children, rfl, holds.early, holds.unstarted, fun server member => ?_⟩,
      .inr ⟨_, rfl, .tickEnd inLoop atTick⟩⟩
    obtain ⟨listening, peers, _⟩ := holds.serves server member
    exact ⟨listening, peers, fun scan here => by cases idle.symm.trans here⟩

end Thread

/-- Two worlds are the same but for how their threads keep their connections. -/
structure TcpWorld.Mirrors (w : TcpWorld) (v : World) : Prop where
  windows : w.windows = v.windows
  daemons : w.daemons = v.daemons
  network : w.network = v.network
  threads : ∀ host idx, (w.threads host idx).Mirrors (v.threads host idx)

section World

variable {cfg : Setting} {w w' : TcpWorld} {v : World} {events : List WorldEvent} {host : UInt32}
  {idx : Fin numThreads} {act : Option ThreadAct} {act' : ThreadAct} {windows : ClientWindows}
  {t : TcpBlockThread} {a : ThreadState}
  {daemons : UInt32 → DaemonState} {network : List UdpDatagram}

theorem TcpWorld.Mirrors.setThread (mirrors : w.Mirrors v) (same : t.Mirrors a) :
    TcpWorld.Mirrors ⟨Function.update w.windows host windows,
        Function.update w.threads host (Function.update (w.threads host) idx t), daemons, network⟩
      { v.setThread host idx windows a with daemons, network } where
  windows := by
    rw [mirrors.windows]
    rfl
  daemons := rfl
  network := rfl
  threads host' idx' := by
    have there : (v.setThread host idx windows a).threads host' idx' =
        if host' = host ∧ idx' = idx then a else v.threads host' idx' := World.setThread_threads
    show TcpBlockThread.Mirrors _ ((v.setThread host idx windows a).threads host' idx')
    rw [there]
    by_cases sameHost : host' = host
    · subst sameHost
      by_cases sameIdx : idx' = idx
      · subst sameIdx
        simpa using same
      · simpa [Function.update_of_ne sameIdx, sameIdx] using mirrors.threads host' idx'
    · simpa [Function.update_of_ne sameHost, sameHost] using mirrors.threads host' idx'

/-- An act of a thread is a step of the world, given what is outside. -/
theorem Outside.worldStep (outside : Outside cfg host idx v.daemons v.network (some act') daemons network events)
    (step : BlockThreadStep (cfg.context host idx) (v.windows host) (v.threads host idx) act' windows a) :
    Run (WorldStep cfg) v events { v.setThread host idx windows a with daemons, network } := by
  cases outside with
  | silent => exact .next .start (.silent step)
  | send => exact .next .start (.send step)
  | accept connected client => exact .next .start (.accept step connected client)
  | read stream => exact .next .start (.read step stream)
  | close exited empty => exact .next .start (.close step exited empty)

theorem TcpWorldStep.mirrored (step : TcpWorldStep cfg w events w') (mirrors : w.Mirrors v) :
    ∃ v', Run (WorldStep cfg) v events v' ∧ w'.Mirrors v' := by
  cases step with
  | @thread host idx act windows t daemons network _ step outside =>
    rw [mirrors.windows] at step
    rw [mirrors.daemons, mirrors.network] at outside
    obtain ⟨a, same, ⟨rfl, rfl, rfl⟩ | ⟨act', rfl, taken⟩⟩ := step.mirrored (mirrors.threads host idx)
    · cases outside
      refine ⟨v, .start, ?_⟩
      have unchanged : v.setThread host idx (v.windows host) (v.threads host idx) = v := by
        rw [World.setThread, Function.update_eq_self, Function.update_eq_self, Function.update_eq_self]
      have set : TcpWorld.Mirrors _ { v.setThread host idx (v.windows host) (v.threads host idx) with
          daemons := v.daemons, network := v.network } := mirrors.setThread same
      rwa [unchanged] at set
    · exact ⟨_, outside.worldStep taken, mirrors.setThread same⟩
  | daemon step =>
    rw [mirrors.daemons, mirrors.network] at step
    exact ⟨_, .next .start (.daemon step), mirrors.windows, congrArg (Function.update · _ _) mirrors.daemons,
      mirrors.network, mirrors.threads⟩
  | @connect host d client idx step isClient listening =>
    rw [mirrors.daemons, mirrors.network] at step
    rw [mirrors.daemons] at isClient
    obtain ⟨children, same, _⟩ := mirrors.threads client idx
    have listens : (v.threads client idx).listening = true := by
      rw [same]
      exact listening
    exact ⟨_, .next .start (.connect step isClient listens), mirrors.windows,
      congrArg (Function.update · _ _) mirrors.daemons, mirrors.network, mirrors.threads⟩

variable {peer : UInt32 → Fin numThreads → Int → UInt32} {labels : List (List WorldEvent)}

theorem tcpWorldRun_mirrored (run : Run (TcpWorldStep cfg) (tcpWorldStart cfg peer) labels w) :
    ∃ v, WorldRun cfg labels.flatten v ∧ w.Mirrors v := by
  rw [← List.flatMap_id]
  refine run.expand TcpWorld.Mirrors id (fun mirrors step => step.mirrored mirrors)
    ⟨rfl, rfl, rfl, fun host idx => ?_⟩
  exact ⟨[], rfl, fun _ => rfl, fun _ => ⟨rfl, rfl⟩, nofun⟩

end World

end UCP
