import Mathlib.Data.Finset.Card
import UCP.TcpProcess

namespace UCP

/-- The child that a call of `tcp_server_receive` is for; none for an accept. -/
def TcpCall.child : TcpCall → Option Int
  | accept _ => none
  | receive childSd _ _ => some childSd

/-- What comes from outside when a ready descriptor is served does not make the
server fault. -/
def ServedAt (server : TcpServer) (accepted : TcpAccepted) (read : Int → ReadResult) (sd : Int) : Prop :=
  if sd = server.sd then accepted.HasRoom else read sd ≠ .error

section Round

variable {readFds : FdSet} {accepted : TcpAccepted} {read : Int → ReadResult} {server server' : TcpServer}
  {sd : Int}
  {calls : List TcpCall}

theorem tcpServerRound_eq (inside : 0 ≤ sd ∧ sd < fdSetSize) :
    tcpServerRound readFds accepted read server sd =
      if sd ∈ readFds.members then
        if sd = server.sd then (tcpServerAccept server accepted).map fun result => (result.2, [.accept result.1])
        else (tcpServerReceive server sd (read sd)).map fun received =>
          (received.server, [.receive sd received.closed received.rx])
      else .ok (server, []) := by
  rw [tcpServerRound, FdSet.fdIsset, if_pos inside]
  by_cases ready : sd ∈ readFds.members
  · by_cases listening : sd = server.sd
    · rw [if_pos ready, if_pos listening, decide_eq_true ready]
      simp only [if_pos listening]
      rfl
    · rw [if_pos ready, if_neg listening, decide_eq_true ready]
      simp only [if_neg listening]
      rfl
  · rw [if_neg ready, decide_eq_false ready]
    rfl

/-- A round calls for its descriptor if it is ready, and leaves the rest of the
window open. -/
theorem tcpServerRound_eq_ok (ran : tcpServerRound readFds accepted read server sd = .ok (server', calls)) :
    (sd ∈ readFds.members → ServedAt server accepted read sd) ∧ server'.sd = server.sd ∧
      (∀ other, sd < other → other ≤ server.maxSd → other ≤ server'.maxSd) ∧
      (server.maxSd < fdSetSize → server'.maxSd < fdSetSize) ∧
      calls.map TcpCall.child =
        if sd ∈ readFds.members then [if sd = server.sd then none else some sd] else [] := by
  rw [tcpServerRound_eq (tcpServerRound_inside ran)] at ran
  rw [ServedAt]
  by_cases ready : sd ∈ readFds.members
  · rw [if_pos ready] at ran ⊢
    by_cases listening : sd = server.sd
    · rw [if_pos listening] at ran
      rw [if_pos listening, if_pos listening]
      obtain ⟨⟨answer, next⟩, accepting, result⟩ := Except.bind_eq_ok.mp ran
      cases result
      obtain ⟨room, ⟨_, _, rfl⟩ | ⟨nonneg, _, sameSd, maxSd, _⟩⟩ := tcpServerAccept_eq_ok accepting
      · exact ⟨fun _ => room, rfl, fun _ _ => id, id, rfl⟩
      · have inside := (room nonneg).1
        refine ⟨fun _ => room, sameSd, fun other _ _ => ?_, fun _ => ?_, rfl⟩ <;> grind
    · rw [if_neg listening] at ran
      rw [if_neg listening, if_neg listening]
      obtain ⟨received, receiving, result⟩ := Except.bind_eq_ok.mp ran
      cases result
      obtain ⟨noError, ⟨rfl, _⟩ | ⟨_, _, closing⟩⟩ := tcpServerReceive_eq_ok receiving
      · exact ⟨fun _ => noError, rfl, fun _ _ => id, id, rfl⟩
      · obtain ⟨_, _, sameSd, _, _, maxSd⟩ := closeChildSocket_eq_ok closing
        -- closing lowers `max_sd` only from this descriptor
        refine ⟨fun _ => noError, sameSd, fun other _ _ => ?_, fun _ => ?_, rfl⟩ <;> grind
  · rw [if_neg ready] at ran ⊢
    cases ran
    exact ⟨fun member => absurd member ready, rfl, fun _ _ => id, id, rfl⟩

theorem tcpServerRound_isOk (inside : 0 ≤ sd ∧ sd < fdSetSize)
    (served : sd ∈ readFds.members → ServedAt server accepted read sd) :
    ∃ result, tcpServerRound readFds accepted read server sd = .ok result := by
  rw [tcpServerRound_eq inside]
  split
  · rename_i ready
    have served := served ready
    rw [ServedAt] at served
    split at served
    · rename_i listening
      obtain ⟨result, accepting⟩ := tcpServerAccept_isOk server served
      rw [if_pos listening, accepting]
      exact ⟨_, rfl⟩
    · rename_i child
      obtain ⟨received, receiving⟩ := tcpServerReceive_isOk server inside served
      rw [if_neg child, receiving]
      exact ⟨_, rfl⟩
  · exact ⟨_, rfl⟩

end Round

section Scan

variable {readFds : FdSet} {accepted : TcpAccepted} {read : Int → ReadResult} {server server' : TcpServer}
  {sd : Int}
  {calls : List TcpCall}

/-- The calls that are due from a descriptor on: an accept for the listening
socket, a receive for each other ready one. -/
def Due (readFds : FdSet) (listening sd : Int) (child : Option Int) : Prop :=
  child ≠ some listening ∧ child.getD listening ∈ readFds.members ∧ sd ≤ child.getD listening

instance (readFds : FdSet) (listening sd : Int) (child : Option Int) : Decidable (Due readFds listening sd child) :=
  inferInstanceAs (Decidable (_ ∧ _))

/-- The ready descriptors from one on lie within the window that is scanned. -/
def Reached (readFds : FdSet) (server : TcpServer) (sd : Int) : Prop :=
  ∀ ready ∈ readFds.members, sd ≤ ready → ready ≤ server.maxSd

theorem tcpServerScan_next {next : TcpServer} (within : sd ≤ server.maxSd)
    (round : tcpServerRound readFds accepted read server sd = .ok (next, calls)) :
    tcpServerScan readFds accepted read server sd =
      (tcpServerScan readFds accepted read next (sd + 1)).map fun last => (last.1, calls ++ last.2) := by
  rw [tcpServerScan, if_pos within]
  split
  · rename_i fault failed
    cases failed.symm.trans round
  · rename_i next' calls' ran
    cases ran.symm.trans round
    rfl

theorem tcpServerScan_fault {fault : TcpFault} (within : sd ≤ server.maxSd)
    (round : tcpServerRound readFds accepted read server sd = .error fault) :
    tcpServerScan readFds accepted read server sd = .error fault := by
  rw [tcpServerScan, if_pos within]
  split
  · rename_i fault' failed
    cases failed.symm.trans round
    rfl
  · rename_i next calls ran
    cases ran.symm.trans round

theorem tcpServerScan_beyond (beyond : ¬ sd ≤ server.maxSd) :
    tcpServerScan readFds accepted read server sd = .ok (server, []) := by
  rw [tcpServerScan, if_neg beyond]
  rfl

/-- A scan passes over descriptors that are not ready. -/
theorem tcpServerScan_skip (n : Nat) (nonneg : 0 ≤ sd) (within : sd + n ≤ server.maxSd + 1)
    (bounded : server.maxSd < fdSetSize) (notReady : ∀ ready ∈ readFds.members, ready < sd ∨ sd + n ≤ ready) :
    tcpServerScan readFds accepted read server sd = tcpServerScan readFds accepted read server (sd + n) := by
  induction n with
  | zero => rw [Int.natCast_zero, Int.add_zero]
  | succ n ih =>
    have here : sd + n ∉ readFds.members := fun ready => by
      have apart := notReady _ ready
      omega
    have round : tcpServerRound readFds accepted read server (sd + n) = .ok (server, []) := by
      rw [tcpServerRound_eq ⟨by omega, by omega⟩, if_neg here]
    rw [ih (by omega) fun ready member => by have apart := notReady ready member; omega,
      tcpServerScan_next (by omega) round, Int.natCast_succ, ← Int.add_assoc]
    rcases tcpServerScan readFds accepted read server (sd + n + 1) with fault | _ <;> rfl

/-- What is due from a descriptor on is the call for it, and what is due from
the next one on. -/
theorem count_due (listening : Int) {served : List (Option Int)}
    (call : served = if sd ∈ readFds.members then [if sd = listening then none else some sd] else [])
    (child : Option Int) :
    served.count child + (if Due readFds listening (sd + 1) child then 1 else 0) =
      if Due readFds listening sd child then 1 else 0 := by
  subst call
  by_cases ready : sd ∈ readFds.members <;> by_cases isListening : sd = listening <;> cases child <;>
    grind [Due]

theorem tcpServerScan_eq_ok (reached : Reached readFds server sd)
    (ran : tcpServerScan readFds accepted read server sd = .ok (server', calls)) :
    (∀ ready ∈ readFds.members, sd ≤ ready → ServedAt server accepted read ready) ∧
      ∀ child, (calls.map TcpCall.child).count child = if Due readFds server.sd sd child then 1 else 0 := by
  induction server, sd using tcpServerScan.induct readFds accepted read generalizing server' calls with
  | case1 server sd within fault round =>
    rw [tcpServerScan_fault within round] at ran
    cases ran
  | case2 server sd within next served round ih =>
    rw [tcpServerScan_next within round] at ran
    obtain ⟨⟨last, rest⟩, scan, result⟩ := Except.bind_eq_ok.mp ran
    cases result
    obtain ⟨servedHere, sameSd, window, _, call⟩ := tcpServerRound_eq_ok round
    have later : Reached readFds next (sd + 1) := fun ready member above =>
      window ready (by omega) (reached ready member (by omega))
    obtain ⟨servedLater, count⟩ := ih later scan
    constructor
    · intro ready member above
      rcases above.eq_or_lt with rfl | above
      · exact servedHere member
      · have served := servedLater ready member (by omega)
        rwa [ServedAt, sameSd] at served
    · intro child
      rw [List.map_append, List.count_append, count child, sameSd]
      exact count_due server.sd call child
  | case3 server sd beyond =>
    rw [tcpServerScan_beyond beyond] at ran
    cases ran
    constructor
    · intro ready member above
      exact absurd (above.trans (reached ready member above)) beyond
    · intro child
      rw [if_neg fun due => beyond (due.2.2.trans (reached _ due.2.1 due.2.2))]
      rfl

theorem tcpServerScan_isOk (nonneg : 0 ≤ sd) (bounded : server.maxSd < fdSetSize)
    (served : ∀ ready ∈ readFds.members, sd ≤ ready → ServedAt server accepted read ready) :
    ∃ result, tcpServerScan readFds accepted read server sd = .ok result := by
  induction server, sd using tcpServerScan.induct readFds accepted read with
  | case1 server sd within fault round =>
    obtain ⟨result, ran⟩ :=
      tcpServerRound_isOk ⟨nonneg, within.trans_lt bounded⟩ fun member => served sd member le_rfl
    cases ran.symm.trans round
  | case2 server sd within next calls round ih =>
    obtain ⟨_, sameSd, _, stays, _⟩ := tcpServerRound_eq_ok round
    have servedLater : ∀ ready ∈ readFds.members, sd + 1 ≤ ready → ServedAt next accepted read ready := by
      intro ready member above
      rw [ServedAt, sameSd]
      exact served ready member (by omega)
    obtain ⟨result, scan⟩ := ih (by omega) (stays bounded) servedLater
    rw [tcpServerScan_next within round, scan]
    exact ⟨_, rfl⟩
  | case3 server sd beyond => exact ⟨_, tcpServerScan_beyond beyond⟩

end Scan

section Tick

variable {server : TcpServer} {sd : Int} {others : Int → Bool} {events : List TcpEvent} {process : TcpProcess}
  {ready : FdSet}

/-- One tick accepts once if the listening socket is ready, and receives once
from each ready child. -/
def TcpServer.ServesReady (server : TcpServer) (ready : FdSet) (accepted : TcpAccepted) (read : Int → ReadResult) :
    Prop :=
  ∃ server' calls, tcpServerTick server ready.members.card ready accepted read = .ok (server', calls) ∧
    (calls.map TcpCall.child).count none = (if server.sd ∈ ready.members then 1 else 0) ∧
    ∀ childSd, (calls.map TcpCall.child).count (some childSd) =
      if childSd ∈ ready.members ∧ childSd ≠ server.sd then 1 else 0

theorem TcpProcess.Tracked.servesReady_iff (tracked : process.Tracked)
    (registered : ready.members ⊆ process.server.serverFdSet.members) (accepted : TcpAccepted)
    (read : Int → ReadResult) : process.server.ServesReady ready accepted read ↔
      (∀ sd ∈ ready.members, process.server.sd ≤ sd) ∧
        ∀ sd ∈ ready.members, ServedAt process.server accepted read sd := by
  have reached : Reached ready process.server process.server.sd := fun sd member _ =>
    tracked.window sd (registered member)
  rcases ready.members.eq_empty_or_nonempty with empty | nonempty
  · have tick : tcpServerTick process.server ready.members.card ready accepted read = .ok (process.server, []) := by
      rw [tcpServerTick, if_neg (by simp [empty])]
      rfl
    exact iff_of_true ⟨_, _, tick, by simp [empty], by simp [empty]⟩ (by simp [empty])
  · have tick : tcpServerTick process.server ready.members.card ready accepted read =
        tcpServerScan ready accepted read process.server process.server.sd :=
      if_pos (Int.natCast_pos.mpr nonempty.card_pos)
    constructor
    · rintro ⟨server', calls, ran, _, receives⟩
      obtain ⟨served, count⟩ := tcpServerScan_eq_ok reached (tick ▸ ran)
      have above : ∀ sd ∈ ready.members, process.server.sd ≤ sd := by
        intro sd member
        by_cases listening : sd = process.server.sd
        · exact listening.ge
        · have once := (count (some sd)).symm.trans ((receives sd).trans (if_pos ⟨member, listening⟩))
          by_contra below
          rw [if_neg fun due => below due.2.2] at once
          cases once
      exact ⟨above, fun sd member => served sd member (above sd member)⟩
    · rintro ⟨above, served⟩
      obtain ⟨⟨server', calls⟩, ran⟩ := tcpServerScan_isOk tracked.sd_nonneg tracked.bounded fun sd member _ =>
        served sd member
      obtain ⟨_, count⟩ := tcpServerScan_eq_ok reached ran
      refine ⟨server', calls, tick.trans ran, ?_, fun childSd => ?_⟩
      · rw [count]
        grind [Due]
      · rw [count]
        grind [Due]

/-- In every state that a server reaches, a tick serves whatever is ready exactly
when no ready child has a descriptor below the listening socket and nothing that
it serves makes it fault. -/
theorem tcp_server_tick_serves_ready_iff (started : tcpServerStart true sd 0 0 = .ok (.server server))
    (run : Run TcpProcessStep (.ok (tcpProcessStart server others)) events (.ok process))
    (registered : ready.members ⊆ process.server.serverFdSet.members) (accepted : TcpAccepted)
    (read : Int → ReadResult) : process.server.ServesReady ready accepted read ↔
      (∀ sd ∈ ready.members, process.server.sd ≤ sd) ∧
        (process.server.sd ∈ ready.members → accepted.HasRoom) ∧
        ∀ sd ∈ ready.members, sd ≠ process.server.sd → read sd ≠ .error := by
  rw [(TcpProcess.tracked started run).servesReady_iff registered accepted read]
  refine and_congr_right fun _ => ?_
  simp only [ServedAt]
  grind

/-- The listening socket and a child above it are ready. -/
theorem tcp_server_tick_serves_ready_two : ∃ process,
    Run TcpProcessStep (.ok (tcpProcessStart listeningOn3 (· = 2))) [.accept ⟨5, some 1, none⟩] (.ok process) ∧
      process.server.ServesReady ⟨{3, 5}, by decide⟩ ⟨6, some 2, none⟩ fun _ => .bytes [1] (by decide) := by
  obtain ⟨process, run, sd, _, members, _⟩ := run_accept (by decide)
    (rfl : (tcpProcessStart listeningOn3 (· = 2)).descriptors 5 = none)
  refine ⟨process, run, ?_⟩
  have registered : FdSet.members ⟨{3, 5}, by decide⟩ ⊆ process.server.serverFdSet.members := by
    rw [members]
    decide
  refine (tcp_server_tick_serves_ready_iff listeningOn3_started run registered _ _).mpr ⟨?_, ?_, ?_⟩
  · rw [sd]
    decide
  · exact fun _ _ => ⟨by decide, nofun⟩
  · exact fun _ _ _ => nofun

/-- A child that was given a lower descriptor than the listening socket is ready,
and is never served. -/
theorem tcp_server_tick_misses_lower : ∃ process,
    Run TcpProcessStep (.ok (tcpProcessStart listeningOn3 (· = 2))) [.accept ⟨0, some 1, none⟩] (.ok process) ∧
      0 ∈ process.server.serverFdSet.members ∧ process.descriptors 0 = some .child ∧
      ∀ accepted read, ¬ process.server.ServesReady ⟨{0}, by decide⟩ accepted read := by
  obtain ⟨process, run, sd, _, members, descriptors⟩ := run_accept (by decide)
    (rfl : (tcpProcessStart listeningOn3 (· = 2)).descriptors 0 = none)
  have registered : ({0} : Finset Int) ⊆ process.server.serverFdSet.members := by
    rw [members]
    decide
  refine ⟨process, run, registered (Finset.mem_singleton_self 0), ?_, fun accepted read serves => ?_⟩
  · rw [descriptors]
    rfl
  · have tracked := TcpProcess.tracked listeningOn3_started run
    have above := ((tracked.servesReady_iff registered accepted read).mp serves).1 0 (Finset.mem_singleton_self 0)
    rw [sd] at above
    cases above

end Tick

end UCP
