import UCP.Sockets
import Mathlib.Data.Finset.Basic

namespace UCP

/-- What is wrong with an access that the code makes: outside an array, outside
a descriptor set, or through a null pointer. -/
inductive TcpFault
  | memory (fault : MemFault)
  | descriptorOutOfRange (sd : Int)
  | nullPointer
  deriving DecidableEq, Repr

/-- `FD_SETSIZE`. -/
def fdSetSize : Int := 1024

/-- `fd_set`; the macros may only be used with descriptors that it has room for. -/
structure FdSet where
  members : Finset Int
  bounded : ∀ sd ∈ members, 0 ≤ sd ∧ sd < fdSetSize

def FdSet.fdZero : FdSet := ⟨∅, fun _ member => absurd member (Finset.notMem_empty _)⟩

def FdSet.fdSet (set : FdSet) (sd : Int) : Except TcpFault FdSet :=
  if inside : 0 ≤ sd ∧ sd < fdSetSize then
    .ok ⟨insert sd set.members, by
      intro other member
      rcases Finset.mem_insert.mp member with rfl | old
      · exact inside
      · exact set.bounded other old⟩
  else .error (.descriptorOutOfRange sd)

def FdSet.fdClr (set : FdSet) (sd : Int) : Except TcpFault FdSet :=
  if 0 ≤ sd ∧ sd < fdSetSize then
    .ok ⟨set.members.erase sd, fun other member => set.bounded other (Finset.mem_of_mem_erase member)⟩
  else .error (.descriptorOutOfRange sd)

def FdSet.fdIsset (set : FdSet) (sd : Int) : Except TcpFault Bool :=
  if 0 ≤ sd ∧ sd < fdSetSize then .ok (decide (sd ∈ set.members))
  else .error (.descriptorOutOfRange sd)

/-- `struct sockaddr_in`. -/
structure SockaddrIn where
  sinFamily : UInt16
  sinPort : UInt16
  sinAddr : UInt32
  deriving DecidableEq, Repr

/-- `tcp_endpoint_t`, with the address that `calloc` gave it. -/
structure TcpEndpoint where
  pointer : Nat
  addr : SockaddrIn
  sd : Int
  deriving DecidableEq, Repr

/-- `tcp_server_t`; its endpoints are linked from the newest to the oldest. -/
structure TcpServer where
  sd : Int
  maxSd : Int
  serverFdSet : FdSet
  endpoints : List TcpEndpoint

/-- The pointer that `tcp_server_start` returns. When `bind` fails it is the
one that was freed. -/
inductive TcpServerPointer
  | null
  | freed
  | server (server : TcpServer)

/-- `tcp_server_start`, by what `calloc`, `socket`, `bind` and `listen` return. -/
def tcpServerStart (allocated : Bool) (socketSd bindResult listenResult : Int) : Except TcpFault TcpServerPointer :=
  if !allocated then pure .null
  else if socketSd < 0 then pure .freed
  else if bindResult < 0 then pure .freed
  else if listenResult < 0 then
    pure (.server { sd := socketSd, maxSd := 0, serverFdSet := .fdZero, endpoints := [] })
  else do
    let serverFdSet ← FdSet.fdZero.fdSet socketSd
    pure (.server { sd := socketSd, maxSd := socketSd, serverFdSet, endpoints := [] })

/-- `close_child_socket`, with the descriptor that it closes. -/
def closeChildSocket (server : TcpServer) (childSd : Int) : Except TcpFault (TcpServer × Int) := do
  let serverFdSet ← server.serverFdSet.fdClr childSd
  let maxSd := if childSd = server.maxSd then server.maxSd - 1 else server.maxSd
  pure ({ server with serverFdSet, maxSd }, childSd)

theorem closeChildSocket_eq_ok {server server' : TcpServer} {childSd closed : Int}
    (ran : closeChildSocket server childSd = .ok (server', closed)) :
    (0 ≤ childSd ∧ childSd < fdSetSize) ∧ closed = childSd ∧ server'.sd = server.sd ∧
      server'.endpoints = server.endpoints ∧ server'.serverFdSet.members = server.serverFdSet.members.erase childSd ∧
      server'.maxSd = if childSd = server.maxSd then server.maxSd - 1 else server.maxSd := by
  rw [closeChildSocket, FdSet.fdClr] at ran
  split at ran
  · rename_i inside
    cases ran
    exact ⟨inside, rfl, rfl, rfl, rfl, rfl⟩
  · cases ran

theorem closeChildSocket_isOk {childSd : Int} (server : TcpServer) (inside : 0 ≤ childSd ∧ childSd < fdSetSize) :
    ∃ server', closeChildSocket server childSd = .ok (server', childSd) := by
  rw [closeChildSocket, FdSet.fdClr, if_pos inside]
  exact ⟨_, rfl⟩

/-- The loop of `tcp_server_stop`, with the descriptors that it closes. -/
def tcpServerStopLoop (server : TcpServer) : Except TcpFault (List Int) :=
  if server.maxSd > server.sd then
    match _round : closeChildSocket server server.maxSd with
    | .error fault => .error fault
    | .ok (server', closed) => do
      let rest ← tcpServerStopLoop server'
      pure (closed :: rest)
  else pure []
termination_by (server.maxSd - server.sd).toNat
decreasing_by
  obtain ⟨_, _, sd, _, _, maxSd⟩ := closeChildSocket_eq_ok _round
  rw [if_pos rfl] at maxSd
  omega

/-- `tcp_server_stop`, with the descriptors that it closes. -/
def tcpServerStop (server : TcpServer) : Except TcpFault (List Int) := do
  let closed ← tcpServerStopLoop server
  pure (closed ++ [server.sd])

/-- What comes from outside when a connection is accepted: what `accept`
returns, the memory for the endpoint and the name of the peer. -/
structure TcpAccepted where
  newSd : Int
  endpoint : Option Nat
  peerName : Option SockaddrIn
  deriving DecidableEq, Repr

/-- `create_child_socket`; it does not check the result of `calloc`. -/
def createChildSocket (server : TcpServer) (childSd : Int) (endpoint : Option Nat) (peerName : Option SockaddrIn) :
    Except TcpFault TcpServer :=
  match endpoint with
  | none => .error .nullPointer
  | some pointer => do
    let endpoints := { pointer, addr := peerName.getD ⟨0, 0, 0⟩, sd := childSd } :: server.endpoints
    let serverFdSet ← server.serverFdSet.fdSet childSd
    let maxSd := if childSd > server.maxSd then childSd else server.maxSd
    pure { server with endpoints, serverFdSet, maxSd }

def tcpServerAccept (server : TcpServer) (accepted : TcpAccepted) : Except TcpFault (Bool × TcpServer) :=
  if accepted.newSd < 0 then pure (false, server)
  else do
    let server ← createChildSocket server accepted.newSd accepted.endpoint accepted.peerName
    pure (true, server)

/-- The endpoint that an accepted connection gets. -/
def TcpAccepted.created (accepted : TcpAccepted) : Option TcpEndpoint :=
  if accepted.newSd < 0 then none
  else accepted.endpoint.map fun pointer => ⟨pointer, accepted.peerName.getD ⟨0, 0, 0⟩, accepted.newSd⟩

theorem TcpAccepted.created_eq_some {accepted : TcpAccepted} {endpoint : TcpEndpoint}
    (created : accepted.created = some endpoint) : 0 ≤ accepted.newSd ∧ endpoint.sd = accepted.newSd := by
  rw [TcpAccepted.created] at created
  split at created
  · cases created
  · rename_i descriptor
    obtain ⟨pointer, _, rfl⟩ := Option.map_eq_some_iff.mp created
    exact ⟨Int.not_lt.mp descriptor, rfl⟩

/-- There is room for an accepted connection: for its descriptor in the
descriptor set, and for its endpoint in memory. -/
def TcpAccepted.HasRoom (accepted : TcpAccepted) : Prop :=
  0 ≤ accepted.newSd → accepted.newSd < fdSetSize ∧ accepted.endpoint ≠ none

theorem TcpAccepted.HasRoom.created {accepted : TcpAccepted} (room : accepted.HasRoom)
    (nonneg : 0 ≤ accepted.newSd) :
    ∃ endpoint, accepted.created = some endpoint := by
  obtain ⟨pointer, calloc⟩ := Option.ne_none_iff_exists'.mp (room nonneg).2
  rw [TcpAccepted.created, if_neg (Int.not_lt.mpr nonneg), calloc]
  exact ⟨_, rfl⟩

theorem tcpServerAccept_eq_ok {server server' : TcpServer} {accepted : TcpAccepted} {answer : Bool}
    (ran : tcpServerAccept server accepted = .ok (answer, server')) : accepted.HasRoom ∧
      ((accepted.newSd < 0 ∧ answer = false ∧ server' = server) ∨
        (0 ≤ accepted.newSd ∧ answer = true ∧ server'.sd = server.sd ∧
          server'.maxSd = max server.maxSd accepted.newSd ∧
          server'.serverFdSet.members = insert accepted.newSd server.serverFdSet.members ∧
          ∃ endpoint, accepted.created = some endpoint ∧ server'.endpoints = endpoint :: server.endpoints)) := by
  rw [tcpServerAccept] at ran
  split at ran
  · rename_i failed
    cases ran
    exact ⟨fun nonneg => absurd failed (Int.not_lt.mpr nonneg), .inl ⟨failed, rfl, rfl⟩⟩
  · rename_i descriptor
    cases calloc : accepted.endpoint with
    | none =>
      rw [calloc] at ran
      cases ran
    | some pointer =>
      rw [calloc, createChildSocket, FdSet.fdSet] at ran
      split at ran
      · rename_i inside
        cases ran
        have largest : (if accepted.newSd > server.maxSd then accepted.newSd else server.maxSd) =
            max server.maxSd accepted.newSd := by split <;> omega
        have room : accepted.HasRoom := fun _ => ⟨inside.2, fun null => by cases calloc.symm.trans null⟩
        refine ⟨room, .inr ⟨inside.1, rfl, rfl, largest, rfl, _, ?_, rfl⟩⟩
        rw [TcpAccepted.created, if_neg descriptor, calloc]
        rfl
      · cases ran

theorem tcpServerAccept_isOk {accepted : TcpAccepted} (server : TcpServer) (room : accepted.HasRoom) :
    ∃ result, tcpServerAccept server accepted = .ok result := by
  rw [tcpServerAccept]
  by_cases failed : accepted.newSd < 0
  · exact ⟨_, if_pos failed⟩
  · obtain ⟨inside, allocated⟩ := room (Int.not_lt.mp failed)
    obtain ⟨pointer, calloc⟩ := Option.ne_none_iff_exists'.mp allocated
    rw [if_neg failed, calloc, createChildSocket, FdSet.fdSet, dif_pos ⟨Int.not_lt.mp failed, inside⟩]
    exact ⟨_, rfl⟩

def getEndpoint (server : TcpServer) (sd : Int) : Option TcpEndpoint :=
  server.endpoints.find? fun endpoint => endpoint.sd = sd

/-- What `read` and `recv` find: bytes, none of them at the end of the stream,
or an error. -/
inductive ReadResult
  | bytes (incoming : List UInt8) (fits : incoming.length ≤ tcpSegmentSize)
  | error
  deriving DecidableEq

/-- `read` into a buffer. What it returns is kept as a `size_t`, in which the -1
of an error is the largest number. -/
def ReadResult.into {n : Nat} (buffer : Buffer n) : ReadResult → Nat × Buffer n
  | bytes incoming _ => buffer.receive incoming
  | error => (2 ^ 64 - 1, buffer)

/-- A call of `on_rx`. -/
structure TcpRx where
  endpoint : Option TcpEndpoint
  sgmnt : TcpSgmnt
  deriving DecidableEq

/-- What `tcp_server_receive` leaves: the descriptors it has closed and the
segments it has handed to `on_rx`. -/
structure TcpReceived where
  server : TcpServer
  closed : List Int
  rx : List TcpRx

def tcpServerReceive (server : TcpServer) (childSd : Int) (result : ReadResult) : Except TcpFault TcpReceived :=
  let (bytesRead, buffer) := result.into (Buffer.zeros tcpSegmentSize)
  if bytesRead < 0 then pure { server, closed := [], rx := [] }
  else if bytesRead = 0 then do
    let (server, closed) ← closeChildSocket server childSd
    pure { server, closed := [closed], rx := [] }
  else do
    let endpoint := getEndpoint server childSd
    let bytes ← (Mem.loadRange buffer.bytes 0 bytesRead).mapError .memory
    let data ← ((Buffer.zeros tcpSegmentSize).memcpy bytes).mapError .memory
    pure { server, closed := [], rx := [{ endpoint, sgmnt := { data, dataLen := bytesRead } }] }

/-- An error is copied as if it were bytes, more than the buffer has. -/
theorem tcpServerReceive_error (server : TcpServer) (childSd : Int) :
    tcpServerReceive server childSd .error = .error (.memory (.readOutOfBounds tcpSegmentSize)) := by
  have outside : ¬ 0 + (2 ^ 64 - 1) ≤ (Buffer.zeros tcpSegmentSize).bytes.length := by
    rw [(Buffer.zeros tcpSegmentSize).size]
    decide
  have size : max 0 (Buffer.zeros tcpSegmentSize).bytes.length = tcpSegmentSize := by
    rw [(Buffer.zeros tcpSegmentSize).size, Nat.zero_max]
  have notEof : (2 ^ 64 - 1 : Nat) ≠ 0 := by decide
  simp only [tcpServerReceive, ReadResult.into, Nat.not_lt_zero, if_false, if_neg notEof, Mem.loadRange,
    if_neg outside, size]
  rfl

theorem tcpServerReceive_bytes (server : TcpServer) (childSd : Int) {incoming : List UInt8}
    (fits : incoming.length ≤ tcpSegmentSize) (nonempty : incoming ≠ []) :
    ∃ data, tcpServerReceive server childSd (.bytes incoming fits) = .ok { server, closed := [], rx :=
        [{ endpoint := getEndpoint server childSd, sgmnt := { data, dataLen := incoming.length } }] } ∧
      data.bytes = incoming ++ List.replicate (tcpSegmentSize - incoming.length) 0 := by
  obtain ⟨data, copied, bytes⟩ := (Buffer.zeros tcpSegmentSize).memcpy_eq_ok incoming fits
  have positive : incoming.length ≠ 0 := mt List.length_eq_zero_iff.mp nonempty
  refine ⟨data, ?_, ?_⟩
  · simp only [tcpServerReceive, ReadResult.into, Buffer.receive_length _ fits, Nat.not_lt_zero, if_false,
      if_neg positive, tcpSegment_loadRange fits, Except.mapError, bind, Except.bind, copied]
    rfl
  · rw [bytes, Buffer.zeros, List.drop_replicate]

theorem tcpServerReceive_eof (server : TcpServer) {childSd : Int} {incoming : List UInt8}
    (fits : incoming.length ≤ tcpSegmentSize) (empty : incoming = []) :
    tcpServerReceive server childSd (.bytes incoming fits) = (closeChildSocket server childSd).map fun closed =>
      { server := closed.1, closed := [closed.2], rx := [] } := by
  subst empty
  rfl

/-- Bytes go to `on_rx`, with what `get_endpoint` finds; the end of the stream
closes the child; nothing comes back from an error. -/
theorem tcpServerReceive_eq_ok {server : TcpServer} {childSd : Int} {result : ReadResult} {received : TcpReceived}
    (ran : tcpServerReceive server childSd result = .ok received) : result ≠ .error ∧
      ((received.server = server ∧ received.closed = [] ∧
          ∃ sgmnt, received.rx = [{ endpoint := getEndpoint server childSd, sgmnt }]) ∨
        (received.rx = [] ∧ received.closed = [childSd] ∧
          closeChildSocket server childSd = .ok (received.server, childSd))) := by
  cases result with
  | error =>
    rw [tcpServerReceive_error] at ran
    cases ran
  | bytes incoming fits =>
    refine ⟨nofun, ?_⟩
    by_cases empty : incoming = []
    · rw [tcpServerReceive_eof server fits empty] at ran
      cases closing : closeChildSocket server childSd with
      | error fault =>
        rw [closing] at ran
        cases ran
      | ok closed =>
        rw [closing] at ran
        cases ran
        obtain ⟨_, rfl, _⟩ := closeChildSocket_eq_ok closing
        exact .inr ⟨rfl, rfl, rfl⟩
    · obtain ⟨data, same, _⟩ := tcpServerReceive_bytes server childSd fits empty
      obtain rfl := Except.ok.inj (ran.symm.trans same)
      exact .inl ⟨rfl, rfl, _, rfl⟩

theorem tcpServerReceive_endpoint {server : TcpServer} {childSd : Int} {result : ReadResult}
    {received : TcpReceived}
    (ran : tcpServerReceive server childSd result = .ok received) {rx : TcpRx} (member : rx ∈ received.rx) :
    rx.endpoint = getEndpoint server childSd := by
  obtain ⟨_, ⟨_, _, sgmnt, only⟩ | ⟨empty, _⟩⟩ := tcpServerReceive_eq_ok ran
  · rw [only, List.mem_singleton] at member
    rw [member]
  · rw [empty] at member
    cases member

theorem tcpServerReceive_isOk {childSd : Int} {result : ReadResult} (server : TcpServer)
    (inside : 0 ≤ childSd ∧ childSd < fdSetSize) (noError : result ≠ .error) :
    ∃ received, tcpServerReceive server childSd result = .ok received := by
  cases result with
  | error => exact absurd rfl noError
  | bytes incoming fits =>
    by_cases empty : incoming = []
    · obtain ⟨server', closing⟩ := closeChildSocket_isOk server inside
      rw [tcpServerReceive_eof server fits empty, closing]
      exact ⟨_, rfl⟩
    · obtain ⟨data, same, _⟩ := tcpServerReceive_bytes server childSd fits empty
      exact ⟨_, same⟩

/-- The calls that a tick makes, with what comes of them. -/
inductive TcpCall
  | accept (answer : Bool)
  | receive (childSd : Int) (closed : List Int) (rx : List TcpRx)

/-- The body of the loop of `tcp_server_tick`. -/
def tcpServerRound (readFds : FdSet) (accepted : TcpAccepted) (read : Int → ReadResult) (server : TcpServer)
    (sd : Int) : Except TcpFault (TcpServer × List TcpCall) := do
  if ← readFds.fdIsset sd then
    if sd = server.sd then do
      let (answer, server) ← tcpServerAccept server accepted
      pure (server, [.accept answer])
    else do
      let received ← tcpServerReceive server sd (read sd)
      pure (received.server, [.receive sd received.closed received.rx])
  else pure (server, [])

theorem tcpServerRound_inside {readFds : FdSet} {accepted : TcpAccepted} {read : Int → ReadResult}
    {server : TcpServer} {sd : Int} {result : TcpServer × List TcpCall}
    (ran : tcpServerRound readFds accepted read server sd = .ok result) : 0 ≤ sd ∧ sd < fdSetSize := by
  by_contra outside
  rw [tcpServerRound, FdSet.fdIsset, if_neg outside] at ran
  cases ran

/-- The loop of `tcp_server_tick` from one descriptor on. -/
def tcpServerScan (readFds : FdSet) (accepted : TcpAccepted) (read : Int → ReadResult) (server : TcpServer)
    (sd : Int) : Except TcpFault (TcpServer × List TcpCall) :=
  if sd ≤ server.maxSd then
    match _round : tcpServerRound readFds accepted read server sd with
    | .error fault => .error fault
    | .ok (server, calls) => do
      let (server, rest) ← tcpServerScan readFds accepted read server (sd + 1)
      pure (server, calls ++ rest)
  else pure (server, [])
termination_by (fdSetSize - sd).toNat
decreasing_by
  have inside := tcpServerRound_inside _round
  omega

/-- `tcp_server_tick`, by what `select` returns and leaves in `read_fds`. -/
def tcpServerTick (server : TcpServer) (err : Int) (readFds : FdSet) (accepted : TcpAccepted)
    (read : Int → ReadResult) : Except TcpFault (TcpServer × List TcpCall) :=
  if err > 0 then tcpServerScan readFds accepted read server server.sd
  else pure (server, [])

/-- `tcp_client_t`, by which of its two handlers are set. -/
structure TcpClient where
  onReceive : Bool
  onDisconnect : Bool

/-- A call of one of the handlers of a client. -/
inductive TcpClientCall
  | onReceive (sgmnt : TcpSgmnt)
  | onDisconnect
  deriving DecidableEq

def tcpClientReceive (client : TcpClient) (result : ReadResult) : List TcpClientCall :=
  let (bytesRead, data) := result.into (Buffer.zeros tcpSegmentSize)
  if bytesRead > 0 then
    if client.onReceive then [.onReceive { data, dataLen := bytesRead }] else []
  else if client.onDisconnect then [.onDisconnect] else []

end UCP
