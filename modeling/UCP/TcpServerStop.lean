import UCP.TcpEndpoints

namespace UCP

/-- The loop closes every number of the window above the listening socket, open
or not. -/
theorem tcpServerStopLoop_count {server : TcpServer} (nonneg : 0 ≤ server.sd) (bounded : server.maxSd < fdSetSize) :
    ∃ closed, tcpServerStopLoop server = .ok closed ∧
      ∀ sd, closed.count sd = if server.sd < sd ∧ sd ≤ server.maxSd then 1 else 0 := by
  induction server using tcpServerStopLoop.induct with
  | case1 server more fault round =>
    obtain ⟨server', closing⟩ := closeChildSocket_isOk server ⟨by omega, bounded⟩
    cases closing.symm.trans round
  | case2 server more server' closed round ih =>
    obtain ⟨_, rfl, sameSd, _, _, maxSd⟩ := closeChildSocket_eq_ok round
    rw [if_pos rfl] at maxSd
    obtain ⟨rest, ran, count⟩ := ih (by omega) (by omega)
    refine ⟨server.maxSd :: rest, ?_, fun sd => ?_⟩
    · rw [tcpServerStopLoop, if_pos more]
      split
      · rename_i fault failed
        cases failed.symm.trans round
      · rename_i next closed closing
        cases closing.symm.trans round
        rw [ran]
        rfl
    · rw [List.count_cons, count sd, sameSd, maxSd]
      grind
  | case3 server done =>
    refine ⟨[], ?_, fun sd => ?_⟩
    · rw [tcpServerStopLoop, if_neg done]
      rfl
    · rw [List.count_nil, if_neg (by omega)]

theorem tcpServerStop_count {server : TcpServer} (nonneg : 0 ≤ server.sd) (window : server.sd ≤ server.maxSd)
    (bounded : server.maxSd < fdSetSize) : ∃ closed, tcpServerStop server = .ok closed ∧
      ∀ sd, closed.count sd = if server.sd ≤ sd ∧ sd ≤ server.maxSd then 1 else 0 := by
  obtain ⟨closed, ran, count⟩ := tcpServerStopLoop_count nonneg bounded
  refine ⟨closed ++ [server.sd], ?_, fun sd => ?_⟩
  · rw [tcpServerStop, ran]
    rfl
  · rw [List.count_append, count sd, List.count_singleton]
    grind

/-- The stop closes each open descriptor of the server once, and none of the
others. -/
def TcpProcess.StopsExactly (process : TcpProcess) : Prop :=
  ∃ closed, tcpServerStop process.server = .ok closed ∧
    ∀ sd owner, process.descriptors sd = some owner → closed.count sd = if owner = .other then 0 else 1

section Stop

variable {server : TcpServer} {sd : Int} {others : Int → Bool} {events : List TcpEvent}
  {s : Except TcpFault TcpProcess} {process : TcpProcess}

theorem TcpProcess.Tracked.stopsExactly_iff (tracked : process.Tracked)
    (above : ∀ sd, process.descriptors sd = some .child → process.server.sd < sd) :
    process.StopsExactly ↔
      ∀ sd, process.descriptors sd = some .other → ¬ (process.server.sd < sd ∧ sd ≤ process.server.maxSd) := by
  have window := tracked.sd_le_maxSd
  obtain ⟨closed, ran, count⟩ := tcpServerStop_count tracked.sd_nonneg window tracked.bounded
  constructor
  · rintro ⟨closed', ran', exactly⟩ sd foreign inside
    obtain rfl : closed' = closed := Except.ok.inj (ran'.symm.trans ran)
    have zero := exactly sd .other foreign
    rw [count sd, if_pos rfl, if_pos ⟨inside.1.le, inside.2⟩] at zero
    cases zero
  · intro outside
    refine ⟨closed, ran, fun sd owner isOpen => ?_⟩
    rw [count sd]
    cases owner with
    | listening =>
      have same := (tracked.listening sd).mp isOpen
      rw [if_pos ⟨same.ge, same.trans_le window⟩]
      rfl
    | child =>
      have inside := tracked.window sd ((tracked.registered sd).mpr (.inr isOpen))
      rw [if_pos ⟨(above sd isOpen).le, inside⟩]
      rfl
    | other =>
      have notListening : sd ≠ process.server.sd := by
        intro same
        cases isOpen.symm.trans ((tracked.listening sd).mpr same)
      have out := outside sd isOpen
      rw [if_neg (by omega)]
      rfl

/-- Every open child was accepted with its descriptor. -/
theorem TcpProcess.Remembers.accepted (remembers : process.Remembers events) {childSd : Int}
    (child : process.descriptors childSd = some .child) :
    ∃ accepted, .accept accepted ∈ events ∧ 0 ≤ accepted.newSd ∧ accepted.newSd = childSd := by
  obtain ⟨endpoint, member, rfl⟩ := remembers.child childSd child
  rw [remembers.endpoints, List.mem_reverse] at member
  obtain ⟨event, inside, created⟩ := List.mem_filterMap.mp member
  cases event with
  | accept accepted =>
    obtain ⟨nonneg, same⟩ := TcpAccepted.created_eq_some created
    exact ⟨accepted, inside, nonneg, same.symm⟩
  | _ => cases created

/-- Stopping the server after a history of connections above the listening
socket closes exactly its own descriptors when it has survived the history and
no other open descriptor lies in the window up to `max_sd`. -/
theorem tcp_server_stop_closes_own_iff (started : tcpServerStart true sd 0 0 = .ok (.server server))
    (run : Run TcpProcessStep (.ok (tcpProcessStart server others)) events s)
    (above : ∀ accepted, .accept accepted ∈ events → 0 ≤ accepted.newSd → server.sd < accepted.newSd) :
    (∃ process, s = .ok process ∧ process.StopsExactly) ↔
      (∀ event ∈ events, event.Survivable) ∧ ∀ process, s = .ok process → ∀ sd,
        process.descriptors sd = some .other → ¬ (process.server.sd < sd ∧ sd ≤ process.server.maxSd) := by
  rw [← tcpProcess_survives_iff started run]
  cases s with
  | error fault =>
    constructor
    · rintro ⟨_, ⟨⟩, _⟩
    · rintro ⟨⟨_, ⟨⟩⟩, _⟩
  | ok process =>
    have childrenAbove : ∀ sd, process.descriptors sd = some .child → process.server.sd < sd := by
      intro sd child
      obtain ⟨accepted, member, nonneg, rfl⟩ := (TcpProcess.remembers started run).accepted child
      exact (TcpProcess.sd_eq run).trans_lt (above accepted member nonneg)
    have stops := (TcpProcess.tracked started run).stopsExactly_iff childrenAbove
    constructor
    · rintro ⟨_, ⟨⟩, exactly⟩
      refine ⟨⟨process, rfl⟩, ?_⟩
      rintro _ ⟨⟩
      exact stops.mp exactly
    · rintro ⟨_, outside⟩
      exact ⟨process, rfl, stops.mpr (outside process rfl)⟩

/-- Only the standard error of the process is open, below the listening socket. -/
theorem tcp_server_stop_closes_own_below : ∃ process,
    Run TcpProcessStep (.ok (tcpProcessStart listeningOn3 (· = 2))) [.accept ⟨5, some 1, none⟩] (.ok process) ∧
      process.StopsExactly := by
  obtain ⟨process, run, sd, maxSd, _, descriptors⟩ := run_accept (by decide)
    (rfl : (tcpProcessStart listeningOn3 (· = 2)).descriptors 5 = none)
  have above : ∀ accepted, .accept accepted ∈ [TcpEvent.accept ⟨5, some 1, none⟩] → 0 ≤ accepted.newSd →
      listeningOn3.sd < accepted.newSd := by
    rintro accepted member _
    cases List.mem_singleton.mp member
    decide
  have survivable : ∀ event ∈ [TcpEvent.accept ⟨5, some 1, none⟩], event.Survivable := by
    rintro event member
    rw [List.mem_singleton.mp member]
    exact fun _ => ⟨by decide, nofun⟩
  have outside : ∀ sd, process.descriptors sd = some .other →
      ¬ (process.server.sd < sd ∧ sd ≤ process.server.maxSd) := by
    intro other foreign inside
    rw [descriptors] at foreign
    obtain rfl | rfl : other = 4 ∨ other = 5 := by omega
    · exact absurd foreign (by decide)
    · exact absurd foreign (by decide)
  obtain ⟨_, ⟨⟩, exactly⟩ := (tcp_server_stop_closes_own_iff listeningOn3_started run above).mpr
    ⟨survivable, fun _ same => Except.ok.inj same ▸ outside⟩
  exact ⟨process, run, exactly⟩

/-- A file is open between the listening socket and the connection. It is closed
with them. -/
theorem tcp_server_stop_closes_file : ∃ process closed,
    Run TcpProcessStep (.ok (tcpProcessStart listeningOn3 (· = 4))) [.accept ⟨5, some 1, none⟩] (.ok process) ∧
      process.descriptors 4 = some .other ∧ tcpServerStop process.server = .ok closed ∧ closed.count 4 = 1 ∧
      ¬ process.StopsExactly := by
  obtain ⟨process, run, sd, maxSd, _, descriptors⟩ := run_accept (by decide)
    (rfl : (tcpProcessStart listeningOn3 (· = 4)).descriptors 5 = none)
  have foreign : process.descriptors 4 = some .other := by
    rw [descriptors]
    rfl
  have bounded : process.server.maxSd < fdSetSize := maxSd ▸ by decide
  obtain ⟨closed, ran, count⟩ := tcpServerStop_count (by omega) (by omega) bounded
  have once : closed.count 4 = 1 := by
    rw [count 4, sd, maxSd]
    rfl
  refine ⟨process, closed, run, foreign, ran, once, ?_⟩
  rintro ⟨closed', ran', exactly⟩
  obtain rfl : closed' = closed := Except.ok.inj (ran'.symm.trans ran)
  cases once.symm.trans (exactly 4 .other foreign)

end Stop

end UCP
