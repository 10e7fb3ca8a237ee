import UCP.Lib.Buffer

namespace UCP

/-- The datagram that `sendto` makes of the first `bufLen` bytes of `buffer`. -/
def udpSocketSend (buffer : List UInt8) (bufLen : Nat) : List UInt8 := buffer.take bufLen

def udpSocketReceiveFrom {n : Nat} (buffer : Buffer n) (datagram : List UInt8) : Nat × Buffer n :=
  buffer.receive datagram

def tcpSegmentSize : Nat := 1024

/-- `tcp_sgmnt_t`. -/
structure TcpSgmnt where
  data : Buffer tcpSegmentSize
  dataLen : Nat
  deriving DecidableEq

/-- The segment `tcp_server_receive` hands to `on_rx` when `read` has put
`incoming` into its zeroed buffer. -/
def tcpServerReceiveSgmnt (incoming : List UInt8) : Except MemFault TcpSgmnt := do
  let (bytesRead, buffer) := (Buffer.zeros tcpSegmentSize).receive incoming
  let bytes ← Mem.loadRange buffer.bytes 0 bytesRead
  let data ← (Buffer.zeros tcpSegmentSize).memcpy bytes
  pure { data, dataLen := bytesRead }

/-- The bytes `tcp_client_send` hands to `send`. -/
def tcpClientSend (sgmnt : TcpSgmnt) : List UInt8 := sgmnt.data.bytes.take sgmnt.dataLen

/-- What `read` has put into a zeroed buffer can be copied out again. -/
theorem tcpSegment_loadRange {incoming : List UInt8} (fits : incoming.length ≤ tcpSegmentSize) :
    Mem.loadRange ((Buffer.zeros tcpSegmentSize).receive incoming).2.bytes 0 incoming.length = .ok incoming := by
  rw [Buffer.receive_bytes _ fits, Mem.loadRange_eq_ok (by rw [List.length_append]; omega), List.drop_zero,
    List.take_left]

theorem tcpServerReceiveSgmnt_eq {incoming : List UInt8} (fits : incoming.length ≤ tcpSegmentSize) :
    ∃ data, tcpServerReceiveSgmnt incoming = .ok { data, dataLen := incoming.length } ∧
      data.bytes = incoming ++ List.replicate (tcpSegmentSize - incoming.length) 0 := by
  obtain ⟨data, copied, bytes⟩ := (Buffer.zeros tcpSegmentSize).memcpy_eq_ok incoming fits
  refine ⟨data, ?_, ?_⟩
  · simp only [tcpServerReceiveSgmnt, Buffer.receive_length _ fits, tcpSegment_loadRange fits, bind, Except.bind, copied]
    rfl
  · rw [bytes, Buffer.zeros, List.drop_replicate]

end UCP
