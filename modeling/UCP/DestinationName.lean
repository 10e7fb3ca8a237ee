import Mathlib.Data.List.TakeDrop
import UCP.ClientWindows

namespace UCP

/-- What one metadata packet meets besides the name: the other fields, what the
buffers of both sides hold, and the packet it is decoded into. -/
structure MetadataTransfer where
  partIndex : UInt8
  partSize : UInt32
  sendBuf : Buffer udpPacketSize
  recvBuf : Buffer udpPacketSize
  rcvPkt : UcpPacket

/-- The destination name on its way: `block_thread` sends it in a metadata
packet, and `main` of the server reads it from the packet it has received. The
result is none when the server does not take the packet for metadata. -/
def receivedName (name : List UInt8) (t : MetadataTransfer) : Except MemFault (Option (List UInt8)) := do
  let metadataPacket ← ucpPacketInitMetadata name name.length t.partIndex t.partSize
  let datagram ← sendDatagram metadataPacket t.sendBuf
  let (_, recvBuf) := udpSocketReceiveFrom t.recvBuf datagram
  let rcvPkt ← ucpPacketDecode recvBuf.bytes udpPacketSize t.rcvPkt
  if rcvPkt.type = ucpPacketTypeMetadata then do
    let desinationName ← Mem.loadString rcvPkt.metadataPacket.desinationName.bytes
    pure (some desinationName)
  else pure none

theorem ucpPacketInitMetadata_eq (name : List UInt8) (dstLen : Nat) (partIndex : UInt8) (partSize : UInt32) :
    ∃ pkt, ucpPacketInitMetadata name dstLen partIndex partSize = .ok pkt ∧ pkt.type = ucpPacketTypeMetadata ∧
      pkt.metadataPacket.desinationName.bytes = name.take 19 ++ List.replicate (19 - name.length) 0 ++ [0] := by
  obtain ⟨out, copied, bytes⟩ := (Buffer.zeros 20).strncpy_eq_ok name (show 20 - 1 ≤ 20 by decide)
  have copied : (ucpPacketInit ucpPacketTypeMetadata).metadataPacket.desinationName.strncpy name (20 - 1) = .ok out :=
    copied
  refine ⟨_, by simp only [ucpPacketInitMetadata, copied]; rfl, rfl, bytes⟩

/-- The last byte of the field is always NUL, so there is a string to read. -/
theorem loadString_desinationName {name : List UInt8} (free : 0 ∉ name) :
    Mem.loadString (name.take 19 ++ List.replicate (19 - name.length) 0 ++ [0]) = .ok (name.take 19) := by
  have free : 0 ∉ name.take 19 := fun member => free (List.mem_of_mem_take member)
  rw [List.append_assoc, ← List.replicate_succ', List.replicate_succ]
  exact Mem.loadString_eq_ok free

theorem receivedName_eq {name : List UInt8} (free : 0 ∉ name) (t : MetadataTransfer) :
    receivedName name t = .ok (some (name.take 19)) := by
  obtain ⟨pkt, init, isMetadata, bytes⟩ := ucpPacketInitMetadata_eq name name.length t.partIndex t.partSize
  have encodable : pkt.Encodable := .metadata isMetadata
  obtain ⟨_, _, _, _, _, q, decoded, fields⟩ := encodable.receive t.sendBuf t.recvBuf t.rcvPkt
  have type : q.type = ucpPacketTypeMetadata := fields.type_eq.trans isMetadata
  have read : Mem.loadString q.metadataPacket.desinationName.bytes = .ok (name.take 19) := by
    rw [fields.metadata_eq isMetadata, bytes]
    exact loadString_desinationName free
  simp only [receivedName, init, sendDatagram_eq encodable, decoded, type, read, bind, Except.bind, if_true]
  rfl

/-- The server reads the first 19 bytes of a name. They are the name when it is
not longer, and they tell two names apart that differ within them. -/
theorem destination_names_received {name other : List UInt8} (free : 0 ∉ name) (otherFree : 0 ∉ other)
    (t u : MetadataTransfer) :
    receivedName name t = .ok (some (name.take 19)) ∧
      (receivedName name t = .ok (some name) ↔ name.length ≤ 19) ∧
      (receivedName name t = receivedName other u ↔ name.take 19 = other.take 19) := by
  rw [receivedName_eq free t, receivedName_eq otherFree u]
  simp only [Except.ok.injEq, Option.some.injEq, List.take_eq_self_iff, and_self]

def emptyTransfer : MetadataTransfer := ⟨0, 0, Buffer.zeros _, Buffer.zeros _, ucpPacketInit 0⟩

/-- Of a name of 25 bytes the first 19 are received. They are those of a name that
differs in the 20th byte, and not those of one that differs in the first. -/
theorem destination_names_received_long :
    let name : List UInt8 := List.replicate 25 97
    receivedName name emptyTransfer = .ok (some (List.replicate 19 97)) ∧
      receivedName name emptyTransfer ≠ .ok (some name) ∧
      receivedName name emptyTransfer = receivedName (List.replicate 19 97 ++ [98]) emptyTransfer ∧
      receivedName name emptyTransfer ≠ receivedName (98 :: List.replicate 24 97) emptyTransfer := by
  intro name
  have free : 0 ∉ name := by decide
  have lateFree : (0 : UInt8) ∉ List.replicate 19 97 ++ [98] := by decide
  have earlyFree : (0 : UInt8) ∉ 98 :: List.replicate 24 97 := by decide
  have late := destination_names_received free lateFree emptyTransfer emptyTransfer
  have early := destination_names_received free earlyFree emptyTransfer emptyTransfer
  exact ⟨late.1, mt late.2.1.mp (by decide), late.2.2.mpr (by decide), mt early.2.2.mp (by decide)⟩

/-- Names of 20 bytes that differ in the last one end in one file. -/
theorem destination_names_collide :
    ¬∀ (name other : List UInt8) (t u : MetadataTransfer), name ≠ [] → other ≠ [] → 0 ∉ name → 0 ∉ other →
      name ≠ other → receivedName name t ≠ receivedName other u ∧ receivedName name t = .ok (some name) := by
  intro survive
  have free : ∀ b ≠ 0, (0 : UInt8) ∉ List.replicate 19 97 ++ [b] := fun b nonzero member => by
    rcases List.mem_append.mp member with inside | last
    · exact absurd (List.eq_of_mem_replicate inside) (by decide)
    · exact nonzero (List.mem_singleton.mp last).symm
  have apart := (survive _ _ emptyTransfer emptyTransfer (by decide) (by decide) (free 98 (by decide))
    (free 99 (by decide)) (by decide)).1
  rw [receivedName_eq (free 98 (by decide)), receivedName_eq (free 99 (by decide))] at apart
  exact apart rfl

end UCP
