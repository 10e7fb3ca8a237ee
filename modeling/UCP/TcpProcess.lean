import UCP.TcpServer
import UCP.Lib.Run

namespace UCP

/-- What an open descriptor of the process is. -/
inductive DescriptorOwner
  | listening
  | child
  | other
  deriving DecidableEq, Repr

/-- A process with a TCP server, and its open descriptors. -/
structure TcpProcess where
  server : TcpServer
  descriptors : Int → Option DescriptorOwner

/-- What happens in the process: a call of `tcp_server_accept` or, for a child,
of `tcp_server_receive`, and descriptors that the rest of the process opens and
closes. -/
inductive TcpEvent
  | accept (accepted : TcpAccepted)
  | receive (childSd : Int) (result : ReadResult)
  | openOther (sd : Int)
  | closeOther (sd : Int)

/-- The operating system hands out any descriptor that is not open, and memory
that is not in use. -/
def TcpEvent.Valid (process : TcpProcess) : TcpEvent → Prop
  | accept accepted => ∀ endpoint ∈ accepted.created, process.descriptors endpoint.sd = none ∧
      ∀ old ∈ process.server.endpoints, old.pointer ≠ endpoint.pointer
  | receive childSd _ => process.descriptors childSd = some .child
  | openOther sd => process.descriptors sd = none
  | closeOther sd => process.descriptors sd = some .other

def tcpEvent (process : TcpProcess) : TcpEvent → Except TcpFault TcpProcess
  | .accept accepted => do
    let (answer, server) ← tcpServerAccept process.server accepted
    if answer then
      pure { server, descriptors := Function.update process.descriptors accepted.newSd (some .child) }
    else pure { process with server }
  | .receive childSd result => do
    let received ← tcpServerReceive process.server childSd result
    pure { server := received.server,
           descriptors := fun sd => if sd ∈ received.closed then none else process.descriptors sd }
  | .openOther sd => pure { process with descriptors := Function.update process.descriptors sd (some .other) }
  | .closeOther sd => pure { process with descriptors := Function.update process.descriptors sd none }

/-- The process takes steps until one of them faults. -/
def TcpProcessStep : Except TcpFault TcpProcess → TcpEvent → Except TcpFault TcpProcess → Prop :=
  Faulting (fun process event => event.Valid process) tcpEvent

/-- A process in which a server has just been started. -/
def tcpProcessStart (server : TcpServer) (others : Int → Bool) : TcpProcess where
  server := server
  descriptors := fun sd => if sd = server.sd then some .listening else if others sd then some .other else none

/-- An event that the server survives: there is room for the connection it
accepts, and what it reads is not an error. -/
def TcpEvent.Survivable : TcpEvent → Prop
  | accept accepted => accepted.HasRoom
  | receive _ result => result ≠ .error
  | openOther _ | closeOther _ => True

/-- The endpoint that an event creates. -/
def TcpEvent.created : TcpEvent → Option TcpEndpoint
  | accept accepted => accepted.created
  | _ => none

section Effect

variable {process process' : TcpProcess} {event : TcpEvent}

/-- What an event does that the server survives. -/
inductive TcpEffect (process : TcpProcess) : TcpEvent → TcpProcess → Prop
  | refused {accepted : TcpAccepted} (failed : accepted.newSd < 0) : TcpEffect process (.accept accepted) process
  | connected {accepted : TcpAccepted} {endpoint : TcpEndpoint} {server : TcpServer}
      (created : accepted.created = some endpoint) (room : endpoint.sd < fdSetSize)
      (sd : server.sd = process.server.sd) (maxSd : server.maxSd = max process.server.maxSd endpoint.sd)
      (members : server.serverFdSet.members = insert endpoint.sd process.server.serverFdSet.members)
      (endpoints : server.endpoints = endpoint :: process.server.endpoints) :
      TcpEffect process (.accept accepted)
        ⟨server, Function.update process.descriptors endpoint.sd (some .child)⟩
  | received {childSd : Int} {result : ReadResult} : TcpEffect process (.receive childSd result) process
  | disconnected {childSd : Int} {result : ReadResult} {server : TcpServer}
      (closing : closeChildSocket process.server childSd = .ok (server, childSd)) :
      TcpEffect process (.receive childSd result) ⟨server, Function.update process.descriptors childSd none⟩
  | opened {sd : Int} : TcpEffect process (.openOther sd)
      { process with descriptors := Function.update process.descriptors sd (some .other) }
  | closed {sd : Int} : TcpEffect process (.closeOther sd)
      { process with descriptors := Function.update process.descriptors sd none }

theorem tcpEvent_effect (ran : tcpEvent process event = .ok process') :
    event.Survivable ∧ TcpEffect process event process' := by
  cases event with
  | accept accepted =>
    obtain ⟨⟨answer, server⟩, accepting, rest⟩ := Except.bind_eq_ok.mp ran
    obtain ⟨room, ⟨failed, rfl, rfl⟩ | ⟨nonneg, rfl, sd, maxSd, members, endpoint, created, endpoints⟩⟩ :=
      tcpServerAccept_eq_ok accepting
    · cases rest
      exact ⟨room, .refused failed⟩
    · cases rest
      have inside := (room nonneg).1
      rw [← (TcpAccepted.created_eq_some created).2] at inside maxSd members ⊢
      exact ⟨room, .connected created inside sd maxSd members endpoints⟩
  | receive childSd result =>
    obtain ⟨received, receiving, rest⟩ := Except.bind_eq_ok.mp ran
    obtain ⟨noError, ⟨server, closed, _⟩ | ⟨_, closed, closing⟩⟩ := tcpServerReceive_eq_ok receiving
    · cases rest
      have open' : (fun sd => if sd ∈ received.closed then none else process.descriptors sd) = process.descriptors := by
        funext sd
        rw [closed, if_neg List.not_mem_nil]
      rw [server, open']
      exact ⟨noError, .received⟩
    · cases rest
      have open' : (fun sd => if sd ∈ received.closed then none else process.descriptors sd) =
          Function.update process.descriptors childSd none := by
        funext sd
        rw [closed, Function.update_apply]
        exact if_congr List.mem_singleton rfl rfl
      rw [open']
      exact ⟨noError, .disconnected closing⟩
  | openOther sd =>
    cases ran
    exact ⟨trivial, .opened⟩
  | closeOther sd =>
    cases ran
    exact ⟨trivial, .closed⟩

end Effect

section Tracked

/-- What holds of the descriptors and the server's view of them: the set has
the listening socket and the open children, in a window that `max_sd` bounds. -/
structure TcpProcess.Tracked (process : TcpProcess) : Prop where
  listening : ∀ sd, process.descriptors sd = some .listening ↔ sd = process.server.sd
  registered : ∀ sd, sd ∈ process.server.serverFdSet.members ↔
    sd = process.server.sd ∨ process.descriptors sd = some .child
  window : ∀ sd ∈ process.server.serverFdSet.members, sd ≤ process.server.maxSd
  bounded : process.server.maxSd < fdSetSize

variable {process process' : TcpProcess} {event : TcpEvent}

theorem TcpEffect.tracked (tracked : process.Tracked) (valid : event.Valid process)
    (effect : TcpEffect process event process') : process'.Tracked := by
  obtain ⟨listening, registered, window, bounded⟩ := tracked
  cases effect with
  | refused failed => exact ⟨listening, registered, window, bounded⟩
  | received => exact ⟨listening, registered, window, bounded⟩
  | @connected accepted endpoint server created room sd maxSd members endpoints =>
    have free := (valid endpoint created).1
    have notListening : endpoint.sd ≠ process.server.sd := by
      intro same
      cases free.symm.trans ((listening endpoint.sd).mpr same)
    exact {
      listening := by grind [Function.update_apply]
      registered := by grind [Function.update_apply]
      window := by grind
      bounded := by grind }
  | @disconnected childSd result server closing =>
    have child : process.descriptors childSd = some .child := valid
    obtain ⟨_, _, sd, _, members, maxSd⟩ := closeChildSocket_eq_ok closing
    exact {
      listening := by grind [Function.update_apply]
      registered := by grind [Function.update_apply]
      -- the closed child was the only one that could be at `max_sd`
      window := by grind
      bounded := by grind }
  | @opened sd =>
    have free : process.descriptors sd = none := valid
    exact {
      listening := by grind [Function.update_apply]
      registered := by grind [Function.update_apply]
      window := window
      bounded := bounded }
  | @closed sd =>
    have other : process.descriptors sd = some .other := valid
    exact {
      listening := by grind [Function.update_apply]
      registered := by grind [Function.update_apply]
      window := window
      bounded := bounded }

theorem TcpProcess.Tracked.child_inside (tracked : process.Tracked) {childSd : Int}
    (child : process.descriptors childSd = some .child) : 0 ≤ childSd ∧ childSd < fdSetSize :=
  process.server.serverFdSet.bounded childSd ((tracked.registered childSd).mpr (.inr child))

theorem TcpProcess.Tracked.sd_nonneg (tracked : process.Tracked) : 0 ≤ process.server.sd :=
  (process.server.serverFdSet.bounded process.server.sd ((tracked.registered _).mpr (.inl rfl))).1

theorem TcpProcess.Tracked.sd_le_maxSd (tracked : process.Tracked) : process.server.sd ≤ process.server.maxSd :=
  tracked.window process.server.sd ((tracked.registered _).mpr (.inl rfl))

theorem tcpEvent_isOk (tracked : process.Tracked) (valid : event.Valid process) (survivable : event.Survivable) :
    ∃ process', tcpEvent process event = .ok process' := by
  cases event with
  | accept accepted =>
    obtain ⟨⟨answer, server⟩, accepting⟩ := tcpServerAccept_isOk process.server survivable
    rw [tcpEvent, accepting]
    cases answer <;> exact ⟨_, rfl⟩
  | receive childSd result =>
    obtain ⟨received, receiving⟩ := tcpServerReceive_isOk process.server (tracked.child_inside valid) survivable
    rw [tcpEvent, receiving]
    exact ⟨_, rfl⟩
  | openOther sd => exact ⟨_, rfl⟩
  | closeOther sd => exact ⟨_, rfl⟩

end Tracked

section Runs

variable {server : TcpServer} {sd : Int} {others : Int → Bool} {events : List TcpEvent}
  {s : Except TcpFault TcpProcess} {process : TcpProcess}

theorem tcpServerStart_eq_ok (started : tcpServerStart true sd 0 0 = .ok (.server server)) :
    (0 ≤ sd ∧ sd < fdSetSize) ∧ server.sd = sd ∧ server.maxSd = sd ∧ server.serverFdSet.members = {sd} ∧
      server.endpoints = [] := by
  rw [tcpServerStart, FdSet.fdSet] at started
  simp only [Bool.not_true, Bool.false_eq_true, if_false, lt_irrefl] at started
  split at started
  · cases started
  · split at started
    · rename_i inside
      cases started
      exact ⟨inside, rfl, rfl, rfl, rfl⟩
    · cases started

theorem tcpProcessStart_tracked (started : tcpServerStart true sd 0 0 = .ok (.server server))
    (others : Int → Bool) :
    (tcpProcessStart server others).Tracked := by
  obtain ⟨inside, sameSd, sameMax, members, _⟩ := tcpServerStart_eq_ok started
  exact {
    listening := by grind [tcpProcessStart]
    registered := by grind [tcpProcessStart]
    window := by grind [tcpProcessStart]
    bounded := by grind [tcpProcessStart] }

theorem TcpProcess.tracked (started : tcpServerStart true sd 0 0 = .ok (.server server))
    (run : Run TcpProcessStep (.ok (tcpProcessStart server others)) events (.ok process)) : process.Tracked :=
  run.faulting_invariant (fun _ => TcpProcess.Tracked) (tcpProcessStart_tracked started others)
    fun tracked valid ran => (tcpEvent_effect ran).2.tracked tracked valid

theorem TcpEffect.sd_eq {event : TcpEvent} {process' : TcpProcess} (effect : TcpEffect process event process') :
    process'.server.sd = process.server.sd := by
  cases effect with
  | connected _ _ sd => exact sd
  | disconnected closing => exact (closeChildSocket_eq_ok closing).2.2.1
  | _ => rfl

theorem TcpProcess.sd_eq (run : Run TcpProcessStep (.ok (tcpProcessStart server others)) events (.ok process)) :
    process.server.sd = server.sd :=
  run.faulting_invariant (fun _ process => process.server.sd = server.sd) rfl
    fun same _ ran => (tcpEvent_effect ran).2.sd_eq.trans same

/-- A run gets through without a fault when the server survives its events. -/
theorem tcpProcess_survives_iff (started : tcpServerStart true sd 0 0 = .ok (.server server))
    (run : Run TcpProcessStep (.ok (tcpProcessStart server others)) events s) :
    (∃ process, s = .ok process) ↔ ∀ event ∈ events, event.Survivable :=
  run.faulting_isOk_iff TcpEvent.Survivable (fun ran => (tcpEvent_effect ran).1)
    fun before valid survivable => tcpEvent_isOk (TcpProcess.tracked started before) valid survivable

/-- A server whose listening socket has descriptor 3. -/
def listeningOn3 : TcpServer where
  sd := 3
  maxSd := 3
  serverFdSet := ⟨insert 3 ∅, by decide⟩
  endpoints := []

theorem listeningOn3_started : tcpServerStart true 3 0 0 = .ok (.server listeningOn3) := rfl

/-- The runs on which the results about runs are tried out: one more descriptor
is open, and a connection is accepted. -/
theorem run_accept {newSd foreign : Int} (inside : 0 ≤ newSd ∧ newSd < fdSetSize)
    (free : (tcpProcessStart listeningOn3 (· = foreign)).descriptors newSd = none) : ∃ process,
    Run TcpProcessStep (.ok (tcpProcessStart listeningOn3 (· = foreign))) [.accept ⟨newSd, some 1, none⟩]
        (.ok process) ∧
      process.server.sd = 3 ∧ process.server.maxSd = max 3 newSd ∧
      process.server.serverFdSet.members = insert newSd {3} ∧
      process.descriptors =
        Function.update (tcpProcessStart listeningOn3 (· = foreign)).descriptors newSd (some .child) := by
  have tracked := tcpProcessStart_tracked listeningOn3_started (· = foreign)
  have valid : (TcpEvent.accept ⟨newSd, some 1, none⟩).Valid (tcpProcessStart listeningOn3 (· = foreign)) := by
    intro endpoint created
    rw [(TcpAccepted.created_eq_some created).2]
    exact ⟨free, fun old member => absurd member List.not_mem_nil⟩
  obtain ⟨process, ran⟩ := tcpEvent_isOk tracked valid fun _ => ⟨inside.2, nofun⟩
  refine ⟨process, .cons ⟨_, rfl, valid, ran.symm⟩ .start, ?_⟩
  cases (tcpEvent_effect ran).2 with
  | refused failed => exact absurd inside.1 (Int.not_le.mpr failed)
  | connected created room sd maxSd members endpoints =>
    rw [(TcpAccepted.created_eq_some created).2] at maxSd members ⊢
    exact ⟨sd, maxSd, members, rfl⟩

end Runs

end UCP
