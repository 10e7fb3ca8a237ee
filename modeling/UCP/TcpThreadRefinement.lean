import UCP.ControlStream
import UCP.DestinationName
import UCP.Scene
import UCP.TcpServerTick
import UCP.TcpThread

namespace UCP

/-- The thread with its connections in place of its server. -/
def TcpThread.thread (s : TcpThread) (children : List UInt32) : ThreadState where
  stage := s.stage
  listening := true
  children := children
  client := s.client
  handle := s.handle

/-- These are the hosts that a server has connections with, one with each, and its
descriptors lie within its window. -/
structure Peers (server : TcpServer) (peer : Int → UInt32) (children : List UInt32) : Prop where
  listening : server.sd ∈ server.serverFdSet.members
  mem_iff : ∀ host, host ∈ children ↔ ∃ sd ∈ server.serverFdSet.members, sd ≠ server.sd ∧ peer sd = host
  nodup : children.Nodup
  apart : ∀ sd ∈ server.serverFdSet.members, ∀ other ∈ server.serverFdSet.members, sd ≠ server.sd →
    other ≠ server.sd → peer sd = peer other → sd = other
  window : ∀ sd ∈ server.serverFdSet.members, sd ≤ server.maxSd
  bounded : server.maxSd < fdSetSize

section Peers

variable {server server' : TcpServer} {peer peer' : Int → UInt32} {children : List UInt32}
  {accepted : TcpAccepted} {sd childSd closed : Int}

theorem Peers.start (started : tcpServerStart true sd 0 0 = .ok (.server server)) : Peers server peer [] := by
  obtain ⟨inside, sameSd, maxSd, members, _⟩ := tcpServerStart_eq_ok started
  constructor
  · simp [members, sameSd]
  · simp [members, sameSd]
  · exact List.nodup_nil
  · simp [members, sameSd]
  · simp [members, maxSd]
  · exact maxSd ▸ inside.2

theorem Peers.congr (peers : Peers server peer children)
    (same : ∀ sd ∈ server.serverFdSet.members, peer' sd = peer sd) : Peers server peer' children where
  listening := peers.listening
  mem_iff host := by
    rw [peers.mem_iff]
    refine exists_congr fun sd => and_congr_right fun member => ?_
    rw [same sd member]
  nodup := peers.nodup
  apart sd member other memberOther child childOther equal := by
    rw [same sd member, same other memberOther] at equal
    exact peers.apart sd member other memberOther child childOther equal
  window := peers.window
  bounded := peers.bounded

theorem Peers.not_mem (peers : Peers server peer children) (admits : Admits server peer accepted)
    (nonneg : 0 ≤ accepted.newSd) : peer accepted.newSd ∉ children := by
  intro member
  obtain ⟨sd, registered, child, same⟩ := (peers.mem_iff _).mp member
  exact (admits nonneg).2 sd registered child same

theorem Peers.accept (peers : Peers server peer children) (admits : Admits server peer accepted)
    (room : accepted.HasRoom) (nonneg : 0 ≤ accepted.newSd) (sd : server'.sd = server.sd)
    (maxSd : server'.maxSd = max server.maxSd accepted.newSd)
    (members : server'.serverFdSet.members = insert accepted.newSd server.serverFdSet.members) :
    Peers server' peer (peer accepted.newSd :: children) := by
  obtain ⟨fresh, distinct⟩ := admits nonneg
  have notListening : accepted.newSd ≠ server.sd := fun same => fresh (same ▸ peers.listening)
  constructor
  · rw [sd, members]
    exact Finset.mem_insert_of_mem peers.listening
  · intro host
    rw [List.mem_cons, peers.mem_iff, sd, members]
    constructor
    · rintro (rfl | ⟨old, member, child, same⟩)
      · exact ⟨_, Finset.mem_insert_self _ _, notListening, rfl⟩
      · exact ⟨old, Finset.mem_insert_of_mem member, child, same⟩
    · rintro ⟨old, member, child, same⟩
      rcases Finset.mem_insert.mp member with rfl | member
      · exact .inl same.symm
      · exact .inr ⟨old, member, child, same⟩
  · exact List.nodup_cons.mpr ⟨peers.not_mem admits nonneg, peers.nodup⟩
  · intro old member other memberOther child childOther same
    rw [sd] at child childOther
    rw [members] at member memberOther
    rcases Finset.mem_insert.mp member with rfl | member
    · rcases Finset.mem_insert.mp memberOther with rfl | memberOther
      · rfl
      · exact absurd same.symm (distinct other memberOther childOther)
    · rcases Finset.mem_insert.mp memberOther with rfl | memberOther
      · exact absurd same (distinct old member child)
      · exact peers.apart old member other memberOther child childOther same
  · intro old member
    rw [maxSd]
    rcases Finset.mem_insert.mp (members ▸ member) with rfl | member
    · exact le_max_right _ _
    · exact (peers.window old member).trans (le_max_left _ _)
  · rw [maxSd]
    exact max_lt peers.bounded (room nonneg).1

theorem Peers.close (peers : Peers server peer children) (registered : childSd ∈ server.serverFdSet.members)
    (child : childSd ≠ server.sd) (closing : closeChildSocket server childSd = .ok (server', closed)) :
    Peers server' peer (children.erase (peer childSd)) := by
  obtain ⟨_, _, sd, _, members, maxSd⟩ := closeChildSocket_eq_ok closing
  have bounded := peers.bounded
  constructor
  · rw [sd, members]
    exact Finset.mem_erase_of_ne_of_mem child.symm peers.listening
  · intro host
    rw [peers.nodup.mem_erase_iff, peers.mem_iff, sd, members]
    constructor
    · rintro ⟨other, old, member, oldChild, same⟩
      refine ⟨old, Finset.mem_erase_of_ne_of_mem ?_ member, oldChild, same⟩
      rintro rfl
      exact other same.symm
    · rintro ⟨old, member, oldChild, same⟩
      obtain ⟨other, member⟩ := Finset.mem_erase.mp member
      refine ⟨?_, old, member, oldChild, same⟩
      rintro rfl
      exact other (peers.apart old member childSd registered oldChild child same)
  · exact peers.nodup.erase _
  · intro old member other memberOther oldChild childOther same
    rw [sd] at oldChild childOther
    rw [members] at member memberOther
    exact peers.apart old (Finset.mem_of_mem_erase member) other (Finset.mem_of_mem_erase memberOther) oldChild
      childOther same
  · intro old member
    obtain ⟨other, member⟩ := Finset.mem_erase.mp (members ▸ member)
    have below := peers.window old member
    rw [maxSd]
    split <;> omega
  · rw [maxSd]
    split <;> omega

end Peers

section Tick

variable {ctx : ThreadContext} {readFds : FdSet} {accepted : TcpAccepted} {read : Int → ReadResult}
  {rspPkt : Int → UcpPacket} {act : TcpCall → Option ThreadAct} {peer : Int → UInt32} {server server' : TcpServer}
  {sd : Int} {call : TcpCall} {calls rest : List TcpCall} {acts : List (Option ThreadAct)}
  {windows last : ClientWindows} {t t' : ThreadState}

theorem CallsHandled.split (handled : CallsHandled rspPkt act windows (calls ++ rest) acts last) :
    ∃ first second middle, acts = first ++ second ∧ CallsHandled rspPkt act windows calls first middle ∧
      CallsHandled rspPkt act middle rest second last := by
  generalize whole : calls ++ rest = all at handled
  induction handled generalizing calls with
  | done =>
    obtain ⟨rfl, rfl⟩ := List.append_eq_nil_iff.mp whole
    exact ⟨[], [], _, rfl, .done, .done⟩
  | others windows' _ ih =>
    obtain ⟨first, second, middle, rfl, before, after⟩ := ih whole
    exact ⟨none :: first, second, middle, rfl, .others windows' before, after⟩
  | call handled later ih =>
    cases calls with
    | nil =>
      rw [List.nil_append] at whole
      rw [whole]
      exact ⟨[], _, _, rfl, .done, .call handled later⟩
    | cons call calls =>
      cases whole
      obtain ⟨first, second, middle, rfl, before, after⟩ := ih rfl
      exact ⟨_, second, middle, (List.append_assoc ..).symm, .call handled before, after⟩

theorem CallsHandled.run_none (handled : CallsHandled rspPkt act windows [] acts last) :
    Run (SharedThreadStep ctx) (windows, t) acts (last, t) := by
  generalize nothing : [] = calls at handled
  induction handled with
  | done => exact .start
  | others windows' _ ih => exact .cons (.others windows') (ih nothing)
  | call => cases nothing

/-- One call is what it does, with others before and after. -/
theorem CallsHandled.run_once (handled : CallsHandled rspPkt act windows [call] acts last)
    (does : ∀ windows windows', handleCall rspPkt windows call = .ok windows' →
      Run (SharedThreadStep ctx) (windows, t) ((act call).toList.map some) (windows', t')) :
    Run (SharedThreadStep ctx) (windows, t) acts (last, t') := by
  generalize once : [call] = calls at handled
  induction handled with
  | done => cases once
  | others windows' _ ih => exact .cons (.others windows') (ih once)
  | call handled later =>
    cases once
    exact (does _ _ handled).append later.run_none

/-- What `tcp_server_receive` hands to `on_rx` is what `on_ack_received` is taken to get. -/
theorem tcpServerReceive_sgmnt (server : TcpServer) (childSd : Int) {incoming : List UInt8}
    (fits : incoming.length ≤ tcpSegmentSize) (nonempty : incoming ≠ []) :
    ∃ sgmnt, tcpServerReceiveSgmnt incoming = .ok sgmnt ∧
      tcpServerReceive server childSd (.bytes incoming fits) =
        .ok { server, closed := [], rx := [{ endpoint := getEndpoint server childSd, sgmnt }] } := by
  obtain ⟨data, made, bytes⟩ := tcpServerReceiveSgmnt_eq fits
  obtain ⟨data', ran, bytes'⟩ := tcpServerReceive_bytes server childSd fits nonempty
  obtain rfl : data' = data := by
    cases data
    cases data'
    cases bytes
    cases bytes'
    rfl
  exact ⟨_, made, ran⟩

/-- A tick in which just one child is ready reads from it. -/
theorem tcpServerTick_reads {childSd : Int} {incoming : List UInt8} (nonneg : 0 ≤ server.sd)
    (above : server.sd < childSd) (within : childSd ≤ server.maxSd) (bounded : server.maxSd < fdSetSize)
    (only : readFds.members = {childSd}) (nonempty : incoming ≠ []) (fits : incoming.length ≤ tcpSegmentSize)
    (found : read childSd = .bytes incoming fits) :
    ∃ sgmnt, tcpServerReceiveSgmnt incoming = .ok sgmnt ∧
      tcpServerTick server readFds.members.card readFds accepted read =
        .ok (server, [.receive childSd [] [⟨getEndpoint server childSd, sgmnt⟩]]) := by
  obtain ⟨sgmnt, made, received⟩ := tcpServerReceive_sgmnt server childSd fits nonempty
  refine ⟨sgmnt, made, ?_⟩
  have round : tcpServerRound readFds accepted read server childSd =
      .ok (server, [.receive childSd [] [⟨getEndpoint server childSd, sgmnt⟩]]) := by
    rw [tcpServerRound_eq ⟨by omega, by omega⟩, if_pos (only ▸ Finset.mem_singleton_self childSd), if_neg above.ne',
      found, received]
    rfl
  have before : tcpServerScan readFds accepted read server server.sd =
      tcpServerScan readFds accepted read server (server.sd + ((childSd - server.sd).toNat : Int)) :=
    tcpServerScan_skip _ nonneg (by omega) bounded fun ready member => by
      have same := Finset.mem_singleton.mp (only ▸ member)
      omega
  have after : tcpServerScan readFds accepted read server (childSd + 1) =
      tcpServerScan readFds accepted read server (childSd + 1 + ((server.maxSd - childSd).toNat : Int)) :=
    tcpServerScan_skip _ (by omega) (by omega) bounded fun ready member => by
      have same := Finset.mem_singleton.mp (only ▸ member)
      omega
  rw [tcpServerTick, if_pos (by simp [only]), before,
    show server.sd + ((childSd - server.sd).toNat : Int) = childSd by omega,
    tcpServerScan_next within round, after, tcpServerScan_beyond (by omega)]
  rfl

/-- A round of a tick is at most one step of the thread. -/
theorem tcpServerRound_simulated (inLoop : t.stage = .loop) (atTick : t.client = .tick)
    (listening : t.listening = true) (peers : Peers server peer t.children)
    (registered : sd ∈ readFds.members → sd ∈ server.serverFdSet.members)
    (admits : sd = server.sd → Admits server peer accepted)
    (ran : tcpServerRound readFds accepted read server sd = .ok (server', calls))
    (handled : CallsHandled rspPkt (TcpCall.act peer accepted read) windows calls acts last) :
    ∃ children, Run (SharedThreadStep ctx) (windows, t) acts (last, { t with children }) ∧
      Peers server' peer children ∧
      ∀ other ∈ server.serverFdSet.members, other ≠ sd → other ∈ server'.serverFdSet.members := by
  rw [tcpServerRound_eq (tcpServerRound_inside ran)] at ran
  by_cases ready : sd ∈ readFds.members
  · rw [if_pos ready] at ran
    by_cases isListening : sd = server.sd
    · rw [if_pos isListening] at ran
      obtain ⟨⟨answer, next⟩, accepting, result⟩ := Except.bind_eq_ok.mp ran
      cases result
      obtain ⟨room, ⟨_, rfl, rfl⟩ | ⟨nonneg, rfl, sameSd, maxSd, members, _⟩⟩ := tcpServerAccept_eq_ok accepting
      · refine ⟨t.children, handled.run_once fun windows windows' same => ?_, peers, fun _ member _ => member⟩
        cases same
        exact .start
      · have admits := admits isListening
        refine ⟨_, handled.run_once fun windows windows' same => ?_,
          peers.accept admits room nonneg sameSd maxSd members, fun _ member _ => ?_⟩
        · cases same
          exact .next .start (.own (.tickAccept _ inLoop atTick listening (peers.not_mem admits nonneg)))
        · rw [members]
          exact Finset.mem_insert_of_mem member
    · rw [if_neg isListening] at ran
      obtain ⟨received, receiving, result⟩ := Except.bind_eq_ok.mp ran
      cases result
      have registered := registered ready
      have isPeer : peer sd ∈ t.children := (peers.mem_iff _).mpr ⟨sd, registered, isListening, rfl⟩
      cases found : read sd with
      | error => exact absurd found (tcpServerReceive_eq_ok receiving).1
      | bytes incoming fits =>
        rw [found] at receiving
        by_cases empty : incoming = []
        · rw [tcpServerReceive_eof server fits empty] at receiving
          obtain ⟨⟨server', closed⟩, closing, result⟩ := Except.bind_eq_ok.mp receiving
          cases result
          refine ⟨_, handled.run_once fun windows windows' same => ?_, peers.close registered isListening closing,
            fun other member distinct => ?_⟩
          · cases same
            have act : TcpCall.act peer accepted read (.receive sd [closed] []) = some (.close (peer sd)) := by
              simp [TcpCall.act, found]
            rw [act]
            exact .next .start (.own (.tickClose inLoop atTick isPeer))
          · rw [(closeChildSocket_eq_ok closing).2.2.2.2.1]
            exact Finset.mem_erase_of_ne_of_mem distinct member
        · obtain ⟨sgmnt, made, received⟩ := tcpServerReceive_sgmnt server sd fits empty
          cases received.symm.trans receiving
          refine ⟨t.children, handled.run_once fun windows windows' same => ?_, peers, fun _ member _ => member⟩
          have acknowledged : onAckReceived windows sgmnt (rspPkt sd) = .ok windows' := by
            simpa [handleCall] using same
          have taken : clientReceive windows incoming (rspPkt sd) = .ok windows' := by
            rw [clientReceive, made]
            exact acknowledged
          have act : TcpCall.act peer accepted read (.receive sd [] [⟨getEndpoint server sd, sgmnt⟩]) =
              some (.read (peer sd) incoming) := by
            simp [TcpCall.act, found]
          rw [act]
          exact .next .start (.own (.tickRead (rspPkt sd) inLoop atTick isPeer empty fits taken))
  · rw [if_neg ready] at ran
    cases ran
    exact ⟨t.children, handled.run_none, peers, fun _ member _ => member⟩

theorem tcpServerScan_simulated (inLoop : t.stage = .loop) (atTick : t.client = .tick)
    (listening : t.listening = true) (peers : Peers server peer t.children) (above : server.sd ≤ sd)
    (registered : ∀ ready ∈ readFds.members, sd ≤ ready → ready ∈ server.serverFdSet.members)
    (admits : sd = server.sd → Admits server peer accepted)
    (ran : tcpServerScan readFds accepted read server sd = .ok (server', calls))
    (handled : CallsHandled rspPkt (TcpCall.act peer accepted read) windows calls acts last) :
    ∃ children, Run (SharedThreadStep ctx) (windows, t) acts (last, { t with children }) ∧
      Peers server' peer children := by
  induction server, sd using tcpServerScan.induct readFds accepted read generalizing t calls windows acts with
  | case1 server sd within fault round =>
    rw [tcpServerScan_fault within round] at ran
    cases ran
  | case2 server sd within next served round ih =>
    rw [tcpServerScan_next within round] at ran
    obtain ⟨⟨_, rest⟩, scan, result⟩ := Except.bind_eq_ok.mp ran
    cases result
    obtain ⟨acts, acts', middle, rfl, first, later⟩ := handled.split
    obtain ⟨children, runs, peers', stay⟩ := tcpServerRound_simulated inLoop atTick listening peers
      (fun ready => registered sd ready le_rfl) admits round first
    have sameSd := (tcpServerRound_eq_ok round).2.1
    -- a round leaves what is ready above its descriptor registered
    have registered' : ∀ ready ∈ readFds.members, sd + 1 ≤ ready → ready ∈ next.serverFdSet.members :=
      fun ready member beyond => stay ready (registered ready member (by omega)) (by omega)
    obtain ⟨children', runs', peers''⟩ := ih (t := { t with children }) inLoop atTick listening peers' (by omega)
      registered' (by omega) scan later
    exact ⟨children', runs.append runs', peers''⟩
  | case3 server sd beyond =>
    rw [tcpServerScan_beyond beyond] at ran
    cases ran
    exact ⟨t.children, handled.run_none, peers⟩

/-- A tick is as many steps of the thread as it makes calls that do something. -/
theorem tcpServerTick_simulated (inLoop : t.stage = .loop) (atTick : t.client = .tick)
    (listening : t.listening = true) (peers : Peers server peer t.children)
    (registered : readFds.members ⊆ server.serverFdSet.members) (admits : Admits server peer accepted) {err : Int}
    (ran : tcpServerTick server err readFds accepted read = .ok (server', calls))
    (handled : CallsHandled rspPkt (TcpCall.act peer accepted read) windows calls acts last) :
    ∃ children, Run (SharedThreadStep ctx) (windows, t) acts (last, { t with children }) ∧
      Peers server' peer children := by
  rw [tcpServerTick] at ran
  split at ran
  · exact tcpServerScan_simulated inLoop atTick listening peers le_rfl
      (fun ready member _ => registered member) (fun _ => admits) ran handled
  · cases ran
    exact ⟨t.children, handled.run_none, peers⟩

/-- Whatever a call of a round hands over, the handler takes it. -/
theorem tcpServerRound_handled (ran : tcpServerRound readFds accepted read server sd = .ok (server', calls))
    (rspPkt : Int → UcpPacket) :
    ∀ call ∈ calls, ∀ windows, ∃ windows', handleCall rspPkt windows call = .ok windows' := by
  rw [tcpServerRound_eq (tcpServerRound_inside ran)] at ran
  split at ran
  · split at ran
    · obtain ⟨result, _, rest⟩ := Except.bind_eq_ok.mp ran
      cases rest
      exact List.forall_mem_singleton.mpr fun windows => ⟨windows, rfl⟩
    · obtain ⟨received, receiving, rest⟩ := Except.bind_eq_ok.mp ran
      cases rest
      refine List.forall_mem_singleton.mpr fun windows => ?_
      cases found : read sd with
      | error => exact absurd found (tcpServerReceive_eq_ok receiving).1
      | bytes incoming fits =>
        rw [found] at receiving
        by_cases empty : incoming = []
        · rw [tcpServerReceive_eof server fits empty] at receiving
          obtain ⟨_, _, rest⟩ := Except.bind_eq_ok.mp receiving
          cases rest
          exact ⟨windows, rfl⟩
        · obtain ⟨sgmnt, made, received⟩ := tcpServerReceive_sgmnt server sd fits empty
          cases received.symm.trans receiving
          have taken :=
            clientReceive_handled (r := (incoming, rspPkt sd)) (List.length_pos_iff.mpr empty) fits windows
          rw [clientReceive, made] at taken
          have acknowledged : onAckReceived windows sgmnt (rspPkt sd) = _ := taken
          exact ⟨_, by simpa [handleCall] using acknowledged⟩
  · cases ran
    exact fun call member => absurd member List.not_mem_nil

theorem tcpServerScan_handled (ran : tcpServerScan readFds accepted read server sd = .ok (server', calls))
    (rspPkt : Int → UcpPacket) :
    ∀ call ∈ calls, ∀ windows, ∃ windows', handleCall rspPkt windows call = .ok windows' := by
  induction server, sd using tcpServerScan.induct readFds accepted read generalizing calls with
  | case1 server sd within fault round =>
    rw [tcpServerScan_fault within round] at ran
    cases ran
  | case2 server sd within next served round ih =>
    rw [tcpServerScan_next within round] at ran
    obtain ⟨⟨_, rest⟩, scan, result⟩ := Except.bind_eq_ok.mp ran
    cases result
    exact List.forall_mem_append.mpr ⟨tcpServerRound_handled round rspPkt, ih scan⟩
  | case3 server sd beyond =>
    rw [tcpServerScan_beyond beyond] at ran
    cases ran
    exact fun call member => absurd member List.not_mem_nil

theorem tcpServerTick_handled {err : Int}
    (ran : tcpServerTick server err readFds accepted read = .ok (server', calls)) (rspPkt : Int → UcpPacket) :
    ∀ call ∈ calls, ∀ windows, ∃ windows', handleCall rspPkt windows call = .ok windows' := by
  rw [tcpServerTick] at ran
  split at ran
  · exact tcpServerScan_handled ran rspPkt
  · cases ran
    exact fun call member => absurd member List.not_mem_nil

theorem CallsHandled.of_all
    (all : ∀ call ∈ calls, ∀ windows, ∃ windows', handleCall rspPkt windows call = .ok windows')
    (windows : ClientWindows) : ∃ acts last, CallsHandled rspPkt act windows calls acts last := by
  induction calls generalizing windows with
  | nil => exact ⟨[], windows, .done⟩
  | cons call calls ih =>
    rw [List.forall_mem_cons] at all
    obtain ⟨windows', handled⟩ := all.1 windows
    obtain ⟨acts, last, later⟩ := ih all.2 windows'
    exact ⟨_, last, .call handled later⟩

theorem Peers.tick_isOk_iff {children : List UInt32} (peers : Peers server peer children)
    (registered : readFds.members ⊆ server.serverFdSet.members) :
    (∃ result, tcpServerTick server readFds.members.card readFds accepted read = .ok result) ↔
      (server.sd ∈ readFds.members → accepted.HasRoom) ∧
        ∀ childSd ∈ readFds.members, server.sd < childSd → read childSd ≠ .error := by
  have nonneg := (server.serverFdSet.bounded _ peers.listening).1
  have reached : Reached readFds server server.sd := fun sd member _ => peers.window sd (registered member)
  rcases readFds.members.eq_empty_or_nonempty with empty | nonempty
  · refine iff_of_true ?_ (by simp [empty])
    rw [tcpServerTick, if_neg (by simp [empty])]
    exact ⟨_, rfl⟩
  · rw [tcpServerTick, if_pos (Int.natCast_pos.mpr nonempty.card_pos)]
    constructor
    · rintro ⟨⟨server', calls⟩, ran⟩
      obtain ⟨served, _⟩ := tcpServerScan_eq_ok reached ran
      constructor
      · intro member
        have served := served _ member le_rfl
        rwa [ServedAt, if_pos rfl] at served
      · intro childSd member above
        have served := served _ member above.le
        rwa [ServedAt, if_neg above.ne'] at served
    · rintro ⟨room, reads⟩
      refine tcpServerScan_isOk nonneg peers.bounded fun sd member above => ?_
      rw [ServedAt]
      split
      · rename_i same
        exact room (same ▸ member)
      · rename_i other
        exact reads sd member (lt_of_le_of_ne above (Ne.symm other))

end Tick

section Thread

variable {ctx : ThreadContext} {s s' : TcpThread} {acts : List (Option ThreadAct)}
  {t : ClientWindows × ThreadState}

/-- The thread with its connections does what the one with its server does. -/
def TcpThread.Simulates (s : TcpThread) (t : ClientWindows × ThreadState) : Prop :=
  ∃ children, t = (s.windows, s.thread children) ∧ Peers s.server s.peer children

/-- A step with the server is a run of the thread with the connections. -/
theorem TcpThreadStep.simulated (step : TcpThreadStep ctx s acts s') (related : s.Simulates t) :
    ∃ t', Run (SharedThreadStep ctx) t acts t' ∧ s'.Simulates t' := by
  obtain ⟨children, rfl, peers⟩ := related
  suffices simulated : ∃ children', Run (SharedThreadStep ctx) (s.windows, s.thread children) acts
      (s'.windows, s'.thread children') ∧ Peers s'.server s'.peer children' by
    obtain ⟨children', runs, peers'⟩ := simulated
    exact ⟨_, runs, children', rfl, peers'⟩
  cases step with
  | others windows => exact ⟨children, .next .start (.others windows), peers⟩
  | peers peer same => exact ⟨children, .start, peers.congr same⟩
  | metadata buf before made sent => exact ⟨children, .next .start (.own (.metadata buf before made sent)), peers⟩
  | refused before accepting =>
    obtain ⟨_, ⟨_, _, rfl⟩ | ⟨_, answer, _⟩⟩ := tcpServerAccept_eq_ok accepting
    · exact ⟨children, .start, peers⟩
    · cases answer
  | accept before admits accepting =>
    obtain ⟨room, ⟨_, answer, _⟩ | ⟨nonneg, _, sameSd, maxSd, members, _⟩⟩ := tcpServerAccept_eq_ok accepting
    · cases answer
    · exact ⟨_, .next .start (.own (.accept _ before rfl (peers.not_mem admits nonneg))),
        peers.accept admits room nonneg sameSd maxSd members⟩
  | get inLoop atGet read => exact ⟨children, .next .start (.own (.get inLoop atGet read)), peers⟩
  | send buf inLoop atSend sent => exact ⟨children, .next .start (.own (.send buf inLoop atSend sent)), peers⟩
  | append inLoop atAppend => exact ⟨children, .next .start (.own (.append inLoop atAppend)), peers⟩
  | tick rspPkt inLoop atTick registered admits ran handled =>
    have ticking : (s.thread children).stage = .loop := inLoop
    obtain ⟨children', runs, peers'⟩ :=
      tcpServerTick_simulated ticking atTick rfl peers registered admits ran handled
    exact ⟨children', runs.next (.own (.tickEnd inLoop atTick)), peers'⟩

variable {windows : ClientWindows} {c : List UInt8} {peer : Int → UInt32} {sd : Int} {server : TcpServer}
  {labels : List (List (Option ThreadAct))}

theorem tcpThreadRun_simulated (started : tcpServerStart true sd 0 0 = .ok (.server server))
    (run : Run (TcpThreadStep ctx) (tcpThreadStart server peer windows c) labels s) :
    ∃ t', Run (SharedThreadStep ctx) (windows, (tcpThreadStart server peer windows c).thread [])
      labels.flatten t' ∧ s.Simulates t' := by
  rw [← List.flatMap_id]
  exact run.expand TcpThread.Simulates id (fun related step => step.simulated related) ⟨[], rfl, .start started⟩

/-- A thread with its TCP server, from the start of the server on, does what the
thread with its connections does, in the same order, and has connections with just
the hosts that the server has descriptors for. -/
theorem tcp_thread_refines (started : tcpServerStart true sd 0 0 = .ok (.server server))
    (run : Run (TcpThreadStep ctx) (tcpThreadStart server peer windows c) labels s) :
    ∃ children, Run (SharedThreadStep ctx) (windows, threadStart c)
        (some .silent :: some .silent :: labels.flatten) (s.windows, s.thread children) ∧ children.Nodup ∧
      ∀ host, host ∈ children ↔
        ∃ sd ∈ s.server.serverFdSet.members, sd ≠ s.server.sd ∧ s.peer sd = host := by
  obtain ⟨_, runs, children, rfl, peers⟩ := tcpThreadRun_simulated started run
  exact ⟨children, .cons (.own (.socket rfl)) (.cons (.own (.server true rfl)) runs), peers.nodup, peers.mem_iff⟩

/-- In every run a thread can take a tick exactly when there is room for what its
server accepts and no ready child above the listening socket fails to read,
whatever its windows and the bytes that it reads are. -/
theorem tcp_thread_ticks_iff (started : tcpServerStart true sd 0 0 = .ok (.server server))
    (run : Run (TcpThreadStep ctx) (tcpThreadStart server peer windows c) labels s) {ready : FdSet}
    (registered : ready.members ⊆ s.server.serverFdSet.members) (accepted : TcpAccepted) (read : Int → ReadResult)
    (rspPkt : Int → UcpPacket) :
    (∃ server calls acts last,
        tcpServerTick s.server ready.members.card ready accepted read = .ok (server, calls) ∧
        CallsHandled rspPkt (TcpCall.act s.peer accepted read) s.windows calls acts last) ↔
      (s.server.sd ∈ ready.members → accepted.HasRoom) ∧
        ∀ childSd ∈ ready.members, s.server.sd < childSd → read childSd ≠ .error := by
  obtain ⟨_, _, children, _, peers⟩ := tcpThreadRun_simulated started run
  rw [← peers.tick_isOk_iff registered]
  constructor
  · rintro ⟨server, calls, acts, last, ran, _⟩
    exact ⟨_, ran⟩
  · rintro ⟨⟨server, calls⟩, ran⟩
    obtain ⟨acts, last, handled⟩ := CallsHandled.of_all (tcpServerTick_handled ran rspPkt) s.windows
    exact ⟨server, calls, acts, last, ran, handled⟩

/-- A tick reads from a child that is ready, and hands over what it has read. -/
theorem TcpThreadStep.reads (childSd : Int) {incoming : List UInt8} {rspPkt : UcpPacket} (inLoop : s.stage = .loop)
    (atTick : s.client = .tick) (nonneg : 0 ≤ s.server.sd) (above : s.server.sd < childSd)
    (registered : childSd ∈ s.server.serverFdSet.members) (within : childSd ≤ s.server.maxSd)
    (bounded : s.server.maxSd < fdSetSize) (nonempty : incoming ≠ []) (fits : incoming.length ≤ tcpSegmentSize)
    (run : clientReceive s.windows incoming rspPkt = .ok windows) :
    TcpThreadStep ctx s [some (.read (s.peer childSd) incoming), some .silent]
      { s with windows, client := afterTick windows } := by
  let ready : FdSet := ⟨{childSd}, fun sd member =>
    Finset.mem_singleton.mp member ▸ s.server.serverFdSet.bounded childSd registered⟩
  obtain ⟨sgmnt, made, ran⟩ : ∃ sgmnt, tcpServerReceiveSgmnt incoming = .ok sgmnt ∧
      tcpServerTick s.server ready.members.card ready ⟨-1, none, none⟩ (fun _ => .bytes incoming fits) =
        .ok (s.server, [.receive childSd [] [⟨getEndpoint s.server childSd, sgmnt⟩]]) :=
    tcpServerTick_reads nonneg above within bounded rfl nonempty fits rfl
  rw [clientReceive, made] at run
  have acknowledged : onAckReceived s.windows sgmnt rspPkt = .ok windows := run
  have handled : handleCall (fun _ => rspPkt) s.windows
      (.receive childSd [] [⟨getEndpoint s.server childSd, sgmnt⟩]) = .ok windows := by
    simp [handleCall, acknowledged]
  exact .tick (fun _ => rspPkt) inLoop atTick (Finset.singleton_subset_iff.mpr registered)
    (fun nonneg => absurd nonneg (by decide)) ran (.call handled .done)

/-- A thread whose server has accepted a connection, on descriptor 5, and that
holds no packet. -/
structure TcpThread.Idle (s : TcpThread) (c : List UInt8) (i : Nat) : Prop where
  inLoop : s.stage = .loop
  atGet : s.client = .get
  windows : s.windows = clientWindowsInit
  reading : ReadHandle c i s.handle
  sd : s.server.sd = 3
  members : s.server.serverFdSet.members = {5, 3}
  maxSd : s.server.maxSd = 5
  peer : s.peer = fun _ => 1

/-- The next packet is read, sent, acknowledged and dropped. -/
theorem TcpThread.Idle.acknowledged (ctx : ThreadContext) {i : Nat} (idle : s.Idle c i) (within : i < segmentCount c) :
    ∃ s', Run (TcpThreadStep ctx) s [[some .silent], [some (.send (segment c i).wire)], [some .silent],
        [some (.read 1 (UcpCtrlPacket.wire ⟨UInt32.ofNat i, ucpFlagAck⟩)), some .silent]] s' ∧ s'.Idle c (i + 1) := by
  obtain ⟨handle, next, reading⟩ := getNextPacket_fresh idle.reading within [] false
  have fits : (UcpCtrlPacket.wire ⟨UInt32.ofNat i, ucpFlagAck⟩).length ≤ tcpSegmentSize := by
    rw [UcpCtrlPacket.wire_length]
    decide
  have nonempty : UcpCtrlPacket.wire ⟨UInt32.ofNat i, ucpFlagAck⟩ ≠ [] := by
    rw [← List.length_pos_iff, UcpCtrlPacket.wire_length]
    decide
  have acked := clientReceive_wire (c := ⟨UInt32.ofNat i, ucpFlagAck⟩) (show ucpFlagAck < 256 by decide)
    (appendInFlight clientWindowsInit (segment c i)) (ucpPacketInit 0)
  have dropped : onCtrlPacket (appendInFlight clientWindowsInit (segment c i)) ⟨UInt32.ofNat i, ucpFlagAck⟩ =
      clientWindowsInit := by
    have handled := onCtrlPacket_ack_segments c [] [i] (UInt32.ofNat i)
    simpa [hasNumber, appendInFlight, clientWindowsInit] using handled
  rw [dropped] at acked
  have next : getNextPacket s.windows s.handle = .ok (some (segment c i), clientWindowsInit, handle) := by
    rw [idle.windows]
    exact next
  have got : TcpThreadStep ctx s _ _ := .get idle.inLoop idle.atGet next
  have sent := (Run.start.next got).next
    (.send (Buffer.zeros _) idle.inLoop rfl (sendDatagram_eq (segment_encodable c i) (Buffer.zeros _)))
  have appended := sent.next (.append idle.inLoop rfl)
  have read := appended.next (.reads 5 idle.inLoop rfl (by simp [idle.sd]) (by simp [idle.sd])
    (by simp [idle.members]) (by simp [idle.maxSd]) (by simp [idle.maxSd, fdSetSize]) nonempty fits acked)
  rw [idle.peer] at read
  exact ⟨_, read, idle.inLoop, rfl, rfl, reading, idle.sd, idle.members, idle.maxSd, rfl⟩

/-- The listening socket has descriptor 3, and a server connects on 5. -/
theorem tcpThreadRun_connects (c : List UInt8) : ∃ labels s, Run (TcpThreadStep ⟨firstThread, 1, [97]⟩)
    (tcpThreadStart listeningOn3 (fun _ => 1) clientWindowsInit c) labels s ∧ s.Idle c 0 := by
  obtain ⟨packet, made, isMetadata, _⟩ :=
    ucpPacketInitMetadata_eq [97] 1 (UInt8.ofNat firstThread) (openPartition c).partSize
  have announced : Run (TcpThreadStep ⟨firstThread, 1, [97]⟩)
      (tcpThreadStart listeningOn3 (fun _ => 1) clientWindowsInit c) [[some (.send packet.wire)]]
      { tcpThreadStart listeningOn3 (fun _ => 1) clientWindowsInit c with stage := .accept } :=
    .next .start (.metadata _ rfl made (sendDatagram_eq (.metadata isMetadata) (Buffer.zeros udpPacketSize)))
  have room : TcpAccepted.HasRoom ⟨5, some 1, none⟩ := fun _ => ⟨by decide, nofun⟩
  have admits : Admits listeningOn3 (fun _ => 1) ⟨5, some 1, none⟩ :=
    fun _ => ⟨by decide, fun sd member child => absurd (Finset.mem_singleton.mp member) child⟩
  obtain ⟨⟨answer, server⟩, accepting⟩ := tcpServerAccept_isOk listeningOn3 room
  obtain ⟨_, ⟨failed, _⟩ | ⟨_, rfl, sameSd, maxSd, members, _⟩⟩ := tcpServerAccept_eq_ok accepting
  · exact absurd failed (by decide)
  · exact ⟨_, _, announced.next (.accept rfl admits accepting),
      rfl, rfl, rfl, openPartition_readHandle c, sameSd, members,
      maxSd, rfl⟩

/-- Both packets are read, sent and acknowledged, and the thread leaves its loop. -/
theorem tcp_thread_refines_two_packets :
    let ctx : ThreadContext := ⟨firstThread, 1, [97]⟩
    let start := tcpThreadStart listeningOn3 (fun _ => 1) clientWindowsInit twoPackets
    ∃ labels s children, Run (TcpThreadStep ctx) start labels s ∧ s.client = .left true ∧ 1 ∈ children ∧
      (∀ i, i < 2 → some (.send (segment twoPackets i).wire) ∈ labels.flatten ∧
        some (.read 1 (UcpCtrlPacket.wire ⟨UInt32.ofNat i, ucpFlagAck⟩)) ∈ labels.flatten) ∧
      Run (SharedThreadStep ctx) (clientWindowsInit, threadStart twoPackets)
        (some .silent :: some .silent :: labels.flatten) (s.windows, s.thread children) := by
  have count := segmentCount_twoPackets
  obtain ⟨labels, s0, connects, idle⟩ := tcpThreadRun_connects twoPackets
  obtain ⟨s1, first, idle⟩ := idle.acknowledged ⟨firstThread, 1, [97]⟩ (by omega)
  obtain ⟨s2, second, idle⟩ := idle.acknowledged ⟨firstThread, 1, [97]⟩ (by omega)
  obtain ⟨handle, next⟩ := getNextPacket_none idle.reading count.le false
  have windows : s2.windows = ⟨[], [], false⟩ := idle.windows
  rw [← windows] at next
  have run := ((connects.append first).append second).next (.get idle.inLoop idle.atGet next)
  obtain ⟨children, runs, _, connected⟩ := tcp_thread_refines listeningOn3_started run
  refine ⟨_, _, children, run, rfl, (connected 1).mpr ⟨5, ?_, ?_, congrFun idle.peer 5⟩, ?_, runs⟩
  · rw [idle.members]
    decide
  · rw [idle.sd]
    decide
  · intro i early
    obtain rfl | rfl : i = 0 ∨ i = 1 := by omega
    · simp
    · simp

theorem tcp_thread_ticks_iff_connected : ∃ labels s, Run (TcpThreadStep ⟨firstThread, 1, [97]⟩)
    (tcpThreadStart listeningOn3 (fun _ => 1) clientWindowsInit []) labels s ∧ s.stage = .loop ∧
      ∃ server calls acts last, tcpServerTick s.server 2 ⟨{5, 3}, by decide⟩ ⟨6, some 2, none⟩
          (fun _ => .bytes [1] (by decide)) = .ok (server, calls) ∧
        CallsHandled (fun _ => ucpPacketInit 0)
          (TcpCall.act s.peer ⟨6, some 2, none⟩ fun _ => .bytes [1] (by decide)) s.windows calls acts last := by
  obtain ⟨labels, s, run, idle⟩ := tcpThreadRun_connects []
  have registered : FdSet.members ⟨{5, 3}, by decide⟩ ⊆ s.server.serverFdSet.members := by
    rw [idle.members]
  have ticks := (tcp_thread_ticks_iff listeningOn3_started run registered ⟨6, some 2, none⟩
    (fun _ => .bytes [1] (by decide)) fun _ => ucpPacketInit 0).mpr
    ⟨fun _ _ => ⟨by decide, nofun⟩, fun _ _ _ => nofun⟩
  exact ⟨labels, s, run, idle.inLoop, ticks⟩

end Thread

end UCP
