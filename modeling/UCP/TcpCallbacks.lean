import UCP.TcpProcess

namespace UCP

/-- A `ssize_t` of 64 bits, by its bits. -/
def ssize (bits : Nat) : Int := if bits < 2 ^ 63 then bits else bits - 2 ^ 64

/-- A receive callback that was called with these segments has seen the bytes of
the result, in one call, or has not been called when there are none. -/
def ReadResult.SeenAs : ReadResult → List TcpSgmnt → Prop
  | bytes incoming _, sgmnts =>
    if incoming = [] then sgmnts = []
    else ∃ sgmnt, sgmnts = [sgmnt] ∧ ssize sgmnt.dataLen = incoming.length ∧
      sgmnt.data.bytes.take incoming.length = incoming
  | error, sgmnts => sgmnts = []

/-- The results reach `on_rx` as they are, one after the other, and an error
leaves the descriptor set and the endpoints alone. -/
def ServerSeesRealData : TcpServer → List (Int × ReadResult) → Prop
  | _, [] => True
  | server, (childSd, result) :: rest =>
    ∃ received, tcpServerReceive server childSd result = .ok received ∧
      result.SeenAs (received.rx.map TcpRx.sgmnt) ∧
      (result = .error → received.server.serverFdSet = server.serverFdSet ∧
        received.server.endpoints = server.endpoints) ∧
      ServerSeesRealData received.server rest

/-- The segment with which a call of `on_receive` is made. -/
def TcpClientCall.sgmnt : TcpClientCall → Option TcpSgmnt
  | onReceive sgmnt => some sgmnt
  | onDisconnect => none

def ClientSeesRealData (client : TcpClient) (results : List ReadResult) : Prop :=
  ∀ result ∈ results, result.SeenAs ((tcpClientReceive client result).filterMap TcpClientCall.sgmnt)

theorem ssize_of_le {bits : Nat} (small : bits ≤ tcpSegmentSize) : ssize bits = bits :=
  if_pos (small.trans_lt (by decide))

theorem take_incoming {incoming : List UInt8} {data : Buffer tcpSegmentSize} {rest : List UInt8}
    (bytes : data.bytes = incoming ++ rest) : data.bytes.take incoming.length = incoming := by
  rw [bytes, List.take_left]

theorem ReadResult.seenAs_eof {incoming : List UInt8} (fits : incoming.length ≤ tcpSegmentSize)
    (empty : incoming = []) : (ReadResult.bytes incoming fits).SeenAs [] := by
  rw [SeenAs, if_pos empty]

section Server

variable {server : TcpServer} {childSd : Int} {result : ReadResult}

theorem tcpServerReceive_seenAs (inside : 0 ≤ childSd ∧ childSd < fdSetSize) (noError : result ≠ .error) :
    ∃ received, tcpServerReceive server childSd result = .ok received ∧
      result.SeenAs (received.rx.map TcpRx.sgmnt) := by
  cases result with
  | error => exact absurd rfl noError
  | bytes incoming fits =>
    by_cases empty : incoming = []
    · obtain ⟨server', closing⟩ := closeChildSocket_isOk server inside
      rw [tcpServerReceive_eof server fits empty, closing]
      exact ⟨_, rfl, ReadResult.seenAs_eof fits empty⟩
    · obtain ⟨data, ran, bytes⟩ := tcpServerReceive_bytes server childSd fits empty
      refine ⟨_, ran, ?_⟩
      rw [ReadResult.SeenAs, if_neg empty]
      exact ⟨_, rfl, ssize_of_le fits, take_incoming bytes⟩

theorem serverSeesRealData_iff {results : List (Int × ReadResult)}
    (children : ∀ result ∈ results, 0 ≤ result.1 ∧ result.1 < fdSetSize) :
    ServerSeesRealData server results ↔ ∀ result ∈ results, result.2 ≠ .error := by
  induction results generalizing server with
  | nil => exact ⟨fun _ result member => absurd member List.not_mem_nil, fun _ => trivial⟩
  | cons result results ih =>
    obtain ⟨inside, later⟩ := List.forall_mem_cons.mp children
    rw [List.forall_mem_cons]
    constructor
    · rintro ⟨received, ran, _, _, rest⟩
      exact ⟨(tcpServerReceive_eq_ok ran).1, (ih later).mp rest⟩
    · rintro ⟨noError, rest⟩
      obtain ⟨received, ran, seen⟩ := tcpServerReceive_seenAs inside noError
      exact ⟨received, ran, seen, fun isError => absurd isError noError, (ih later).mpr rest⟩

end Server

section Client

variable {client : TcpClient} {result : ReadResult}

/-- The -1 of an error is more than 0 as a `size_t`. -/
theorem tcpClientReceive_error (handler : client.onReceive = true) : tcpClientReceive client .error =
    [.onReceive { data := .zeros tcpSegmentSize, dataLen := 2 ^ 64 - 1 }] := by
  have positive : (2 ^ 64 - 1 : Nat) > 0 := by decide
  simp only [tcpClientReceive, ReadResult.into, if_pos positive, handler, if_true]

theorem tcpClientReceive_bytes (handler : client.onReceive = true) {incoming : List UInt8}
    (fits : incoming.length ≤ tcpSegmentSize) (nonempty : incoming ≠ []) :
    ∃ data, tcpClientReceive client (.bytes incoming fits) = [.onReceive { data, dataLen := incoming.length }] ∧
      data.bytes = incoming ++ List.replicate (tcpSegmentSize - incoming.length) 0 := by
  refine ⟨((Buffer.zeros tcpSegmentSize).receive incoming).2, ?_, ?_⟩
  · simp only [tcpClientReceive, ReadResult.into, Buffer.receive_length _ fits,
      if_pos (List.length_pos_iff.mpr nonempty), handler, if_true]
  · rw [Buffer.receive_bytes _ fits, Buffer.zeros, List.drop_replicate]

theorem tcpClientReceive_eof (client : TcpClient) {incoming : List UInt8} (fits : incoming.length ≤ tcpSegmentSize)
    (empty : incoming = []) :
    (tcpClientReceive client (.bytes incoming fits)).filterMap TcpClientCall.sgmnt = [] := by
  subst empty
  rw [tcpClientReceive, ReadResult.into]
  cases handler : client.onDisconnect <;> simp [Buffer.receive, TcpClientCall.sgmnt]

theorem tcpClientReceive_seenAs_iff (handler : client.onReceive = true) :
    result.SeenAs ((tcpClientReceive client result).filterMap TcpClientCall.sgmnt) ↔ result ≠ .error := by
  cases result with
  | error =>
    rw [tcpClientReceive_error handler]
    exact ⟨nofun, fun noError => absurd rfl noError⟩
  | bytes incoming fits =>
    refine ⟨fun _ => nofun, fun _ => ?_⟩
    by_cases empty : incoming = []
    · rw [tcpClientReceive_eof client fits empty]
      exact ReadResult.seenAs_eof fits empty
    · obtain ⟨data, ran, bytes⟩ := tcpClientReceive_bytes handler fits empty
      rw [ran, ReadResult.SeenAs, if_neg empty]
      exact ⟨_, rfl, ssize_of_le fits, take_incoming bytes⟩

end Client

/-- The receive callbacks see the received bytes and nothing else exactly when
no call of `read` or `recv` reports an error. -/
theorem receive_callbacks_see_real_data_iff {client : TcpClient} (handler : client.onReceive = true)
    (server : TcpServer) {serverResults : List (Int × ReadResult)}
    (children : ∀ result ∈ serverResults, 0 ≤ result.1 ∧ result.1 < fdSetSize) (clientResults : List ReadResult) :
    (ServerSeesRealData server serverResults ∧ ClientSeesRealData client clientResults) ↔
      (∀ result ∈ serverResults, result.2 ≠ .error) ∧ ∀ result ∈ clientResults, result ≠ .error := by
  refine and_congr (serverSeesRealData_iff children) ?_
  exact forall₂_congr fun result _ => tcpClientReceive_seenAs_iff handler

/-- Two bytes and the end of the stream for the server, a byte for the client. -/
theorem receive_callbacks_see_real_data_two_bytes :
    let eof : ReadResult := .bytes [] (Nat.zero_le _)
    ServerSeesRealData listeningOn3 [(5, .bytes [1, 2] (by decide)), (5, eof)] ∧
      ClientSeesRealData ⟨true, true⟩ [.bytes [7] (by decide), eof] :=
  (receive_callbacks_see_real_data_iff rfl listeningOn3 (by decide) _).mpr ⟨by decide, by decide⟩

/-- An error makes the server copy 2^64 - 1 bytes out of its buffer, and the
client call its handler with a length of -1. -/
theorem receive_error_reaches_callbacks :
    tcpServerReceive listeningOn3 5 .error = .error (.memory (.readOutOfBounds 1024)) ∧
      tcpClientReceive ⟨true, true⟩ .error = [.onReceive { data := .zeros 1024, dataLen := 2 ^ 64 - 1 }] ∧
      ssize (2 ^ 64 - 1) = -1 ∧
      ¬ ServerSeesRealData listeningOn3 [(5, .error)] ∧ ¬ ClientSeesRealData ⟨true, true⟩ [.error] := by
  refine ⟨tcpServerReceive_error _ _, tcpClientReceive_error rfl, by decide, ?_, ?_⟩
  · rintro ⟨received, ran, _⟩
    exact (tcpServerReceive_eq_ok ran).1 rfl
  · intro seen
    exact (tcpClientReceive_seenAs_iff rfl).mp (seen .error (List.mem_singleton_self _)) rfl

end UCP
