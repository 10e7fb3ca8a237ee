import Mathlib.Data.Set.Lattice
import Mathlib.Order.CompletePartialOrder
import UCP.ReceivedFile

namespace UCP

/-- The last packet is flagged as the end of the partition, and only that one. -/
def EndMarked (packets : List UcpPacket) : Prop :=
  ∃ earlier last, packets = earlier ++ [last] ∧ last.dataPacket.flag = ucpFlagDataEnd ∧
    ∀ p ∈ earlier, p.dataPacket.flag ≠ ucpFlagDataEnd

/-- The positions of the packets do not overlap and fill up the file. -/
def Tiles (packets : List UcpPacket) (length : Nat) : Prop :=
  packets.Pairwise (fun p q => Disjoint p.covers q.covers) ∧ ∀ x, (∃ p ∈ packets, x ∈ p.covers) ↔ x < length

variable {c : List UInt8}

theorem segment_flag_end_iff {k : Nat} :
    (segment c k).dataPacket.flag = ucpFlagDataEnd ↔ k ≠ 0 ∧ c.length < udpPacketDataSize * (k + 1) := by
  simp only [segment]
  split
  · rename_i first
    exact iff_of_false (by decide) fun later => later.1 first
  rename_i later
  split
  · rename_i short
    exact iff_of_true rfl ⟨later, short⟩
  · rename_i long
    exact iff_of_false (by decide) fun short => long short.2

theorem segments_eq_concat (nonempty : c ≠ []) :
    ∃ m, segmentCount c = m + 1 ∧ segments c = (List.range m).map (segment c) ++ [segment c m] ∧
      udpPacketDataSize * m < c.length ∧ c.length ≤ udpPacketDataSize * (m + 1) := by
  have first : 0 < segmentCount c := lt_segmentCount_iff.mpr (List.length_pos_iff.mpr nonempty)
  obtain ⟨m, count⟩ : ∃ m, segmentCount c = m + 1 := ⟨segmentCount c - 1, by omega⟩
  refine ⟨m, count, ?_, lt_segmentCount_iff.mp (by omega), ?_⟩
  · rw [segments, count, List.range_succ, List.map_append]
    rfl
  · exact Nat.not_lt.mp fun more => absurd (lt_segmentCount_iff.mpr more) (by omega)

/-- The end of a partition is marked exactly when it takes more than one packet
and the last of them is not full. -/
theorem end_marked_iff (nonempty : c ≠ []) :
    ∃ packets, (∀ ps, ReadsUntilNull (openPartition c) ps ↔ ps = packets) ∧
      (EndMarked packets ↔ udpPacketDataSize < c.length ∧ ¬udpPacketDataSize ∣ c.length) := by
  obtain ⟨m, count, list, inside, bound⟩ := segments_eq_concat nonempty
  refine ⟨segments c, fun ps => readsUntilNull_iff, ?_⟩
  have marked : EndMarked (segments c) ↔ (segment c m).dataPacket.flag = ucpFlagDataEnd := by
    constructor
    · rintro ⟨earlier, last, same, flagged, -⟩
      rw [list] at same
      rw [List.singleton_inj.mp (List.append_inj' same rfl).2]
      exact flagged
    · intro flagged
      refine ⟨_, _, list, flagged, fun p member => ?_⟩
      obtain ⟨k, within, rfl⟩ := List.mem_map.mp member
      intro early
      have short := (segment_flag_end_iff.mp early).2
      have order : udpPacketDataSize * (k + 1) ≤ udpPacketDataSize * m :=
        Nat.mul_le_mul_left _ (List.mem_range.mp within)
      omega
  rw [marked, segment_flag_end_iff]
  constructor
  · rintro ⟨later, short⟩
    refine ⟨lt_of_le_of_lt (Nat.le_mul_of_pos_right _ (Nat.pos_of_ne_zero later)) inside, ?_⟩
    exact Nat.not_dvd_of_lt_of_lt_mul_succ inside short
  · rintro ⟨several, partly⟩
    refine ⟨?_, lt_of_le_of_ne bound fun full => partly ⟨m + 1, full⟩⟩
    rintro rfl
    omega

theorem end_marked_iff_two_packets :
    ∃ packets, (∀ ps, ReadsUntilNull (openPartition (List.replicate 9167 0)) ps ↔ ps = packets) ∧
      (EndMarked packets ↔ udpPacketDataSize < (List.replicate 9167 (0 : UInt8)).length ∧
        ¬udpPacketDataSize ∣ (List.replicate 9167 (0 : UInt8)).length) :=
  end_marked_iff fun none => absurd (List.replicate_eq_nil_iff _ |>.mp none) (by decide)

/-- The only packet of a short partition is flagged as its start. -/
theorem end_not_marked : ∃ packets, ReadsUntilNull (openPartition [7]) packets ∧ ¬EndMarked packets := by
  refine ⟨segments [7], readsUntilNull_iff.mpr rfl, ?_⟩
  rintro ⟨earlier, last, same, flagged, -⟩
  have single : segments [7] = [] ++ [segment [7] 0] := rfl
  rw [single] at same
  rw [← List.singleton_inj.mp (List.append_inj' same rfl).2] at flagged
  exact absurd (segment_flag_end_iff.mp flagged).1 (by decide)

theorem segment_covers_of_lt {k : Nat} (small : udpPacketDataSize * k < 2 ^ 32) :
    (segment c k).covers = Set.Ico (udpPacketDataSize * k) (udpPacketDataSize * k + (piece c k).length) := by
  have offset : (segment c k).dataPacket.offset.toNat = udpPacketDataSize * k := UInt32.toNat_ofNat_of_lt' small
  rw [UcpPacket.covers, offset]
  rfl

theorem segments_tile (few : ∀ k, k < segmentCount c → udpPacketDataSize * k < 2 ^ 32) :
    Tiles (segments c) c.length := by
  constructor
  · refine List.pairwise_map.mpr (List.Pairwise.imp_of_mem (fun {i j} memberI memberJ below => ?_) List.pairwise_lt_range)
    rw [segment_covers_of_lt (few i (List.mem_range.mp memberI)), segment_covers_of_lt (few j (List.mem_range.mp memberJ))]
    have order : udpPacketDataSize * (i + 1) ≤ udpPacketDataSize * j := Nat.mul_le_mul_left _ below
    have fits := length_piece_le c i
    rw [Nat.mul_succ] at order
    refine Set.disjoint_left.mpr fun x inI inJ => ?_
    rw [Set.mem_Ico] at inI inJ
    omega
  · intro x
    constructor
    · rintro ⟨p, member, inside⟩
      obtain ⟨k, within, rfl⟩ := mem_segments.mp member
      rw [segment_covers_of_lt (few k within), Set.mem_Ico] at inside
      have fits := piece_end_le within
      omega
    · intro inside
      have start := Nat.mul_div_le x udpPacketDataSize
      have within : x / udpPacketDataSize < segmentCount c := lt_segmentCount_iff.mpr (by omega)
      refine ⟨_, mem_segments.mpr ⟨_, within, rfl⟩, ?_⟩
      rw [segment_covers_of_lt (few _ within), Set.mem_Ico, length_piece]
      have next := Nat.lt_mul_div_succ x (show 0 < udpPacketDataSize by decide)
      rw [Nat.mul_succ] at next
      omega

theorem Tiles.disjoint {length i j : Nat} (tiles : Tiles (segments c) length) (order : i < j)
    (within : j < segmentCount c) :
    Disjoint (segment c i).covers (segment c j).covers := by
  have apart := List.pairwise_iff_getElem.mp (List.pairwise_map.mp tiles.1) i j (by rw [List.length_range]; omega)
    (by rw [List.length_range]; exact within) order
  rw [List.getElem_range, List.getElem_range] at apart
  exact apart

/-- The first packet whose offset does not fit its field, and where it claims to
start instead. -/
theorem wrapped_offset : (segment c 468576).dataPacket.offset.toNat = 320 := by
  have offset : (segment c 468576).dataPacket.offset = UInt32.ofNat 4294967616 := rfl
  rw [offset]
  decide

theorem tiles_segments_iff : Tiles (segments c) c.length ↔ c.length ≤ udpPacketDataSize * 468576 := by
  constructor
  · intro tiles
    by_contra long
    have within : 468576 < segmentCount c := lt_segmentCount_iff.mpr (by omega)
    have overlap := tiles.disjoint (show 0 < 468576 by omega) within
    have inFirst : 320 ∈ (segment c 0).covers := by
      have size : udpPacketDataSize = 9166 := rfl
      rw [segment_covers_of_lt (by decide), Set.mem_Ico, length_piece]
      omega
    have inLater : 320 ∈ (segment c 468576).covers := by
      have positive : 0 < (segment c 468576).dataPacket.segLen := piece_pos within
      rw [UcpPacket.covers, wrapped_offset, Set.mem_Ico]
      omega
    exact Set.disjoint_left.mp overlap inFirst inLater
  · intro short
    refine segments_tile fun k within => ?_
    have inside := lt_segmentCount_iff.mp within
    have order : k < 468576 := Nat.lt_of_mul_lt_mul_left (inside.trans_le short)
    rw [show udpPacketDataSize = 9166 from rfl]
    omega

/-- The packets tile the partition exactly as long as no offset is cut off on
its way into the 32-bit field. -/
theorem segments_tile_iff (c : List UInt8) :
    ∃ packets, (∀ ps, ReadsUntilNull (openPartition c) ps ↔ ps = packets) ∧
      (Tiles packets c.length ↔ c.length ≤ udpPacketDataSize * 468576) :=
  ⟨segments c, fun _ => readsUntilNull_iff, tiles_segments_iff⟩

/-- One byte more than that, and the last packet claims a place inside the first. -/
theorem segments_overlap :
    ∃ packets, ReadsUntilNull (openPartition (List.replicate 4294967617 0)) packets ∧
      ¬Tiles packets (List.replicate 4294967617 (0 : UInt8)).length := by
  refine ⟨segments (List.replicate 4294967617 0), readsUntilNull_iff.mpr rfl, fun tiles => ?_⟩
  have short := tiles_segments_iff.mp tiles
  rw [List.length_replicate, show udpPacketDataSize = 9166 from rfl] at short
  omega

end UCP
