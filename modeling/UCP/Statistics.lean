import Mathlib.Algebra.Group.Nat.Defs
import UCP.FileIo
import UCP.Lib.Lists

namespace UCP

/-- `struct timeval`. -/
structure Timeval where
  tvSec : Int
  tvUsec : Int
  deriving DecidableEq, Repr

/-- What a thread leaves in its context for the statistics. -/
structure ThreadReport where
  startTime : Timeval
  endTime : Timeval
  partSize : UInt32
  deriving DecidableEq, Repr

/-- The comparison that both loops of `report_statistics` make. -/
def Timeval.before (a b : Timeval) : Bool :=
  if a.tvSec < b.tvSec then true
  else if a.tvSec = b.tvSec then
    if a.tvUsec < b.tvUsec then true else false
  else false

/-- A loop that starts with one time and takes each later one that is better. -/
def keepBest (better : Timeval → Timeval → Bool) (best : Timeval) : List Timeval → Timeval
  | [] => best
  | time :: times => keepBest better (if better time best then time else best) times

def smallestStartTime (ctx : ThreadReport) (ctxs : List ThreadReport) : Timeval :=
  keepBest (fun time best => time.before best) ctx.startTime (ctxs.map (·.startTime))

def largestEndTime (ctx : ThreadReport) (ctxs : List ThreadReport) : Timeval :=
  keepBest (fun time best => best.before time) ctx.endTime (ctxs.map (·.endTime))

/-- The loop of `report_statistics` that adds up the parts. -/
def totalBytes (total : UInt64) : List ThreadReport → UInt64
  | [] => total
  | ctx :: ctxs => totalBytes (total + ctx.partSize.toUInt64) ctxs

def getTotalTimeTaken (startTime endTime : Timeval) : Int :=
  let startTimeMicro := startTime.tvSec * 1000000 + startTime.tvUsec
  let endTimeMicro := endTime.tvSec * 1000000 + endTime.tvUsec
  endTimeMicro - startTimeMicro

/-- The bytes and the microseconds that `report_statistics` goes by, for the
first thread and the others. -/
def reportStatistics (ctx : ThreadReport) (ctxs : List ThreadReport) : UInt64 × Int :=
  (totalBytes 0 (ctx :: ctxs), getTotalTimeTaken (smallestStartTime ctx ctxs) (largestEndTime ctx ctxs))

/-- What `gettimeofday` returns: less than a million microseconds, and seconds
since 1970 that fit in 32 bits. -/
structure Timeval.Normal (time : Timeval) : Prop where
  seconds : 0 ≤ time.tvSec ∧ time.tvSec < 2 ^ 32
  micros : 0 ≤ time.tvUsec ∧ time.tvUsec < 1000000

instance (time : Timeval) : Decidable time.Normal :=
  decidable_of_iff ((0 ≤ time.tvSec ∧ time.tvSec < 2 ^ 32) ∧ 0 ≤ time.tvUsec ∧ time.tvUsec < 1000000)
    ⟨fun both => ⟨both.1, both.2⟩, fun normal => ⟨normal.seconds, normal.micros⟩⟩

def Timeval.micros (time : Timeval) : Int := time.tvSec * 1000000 + time.tvUsec

section Times

variable {a b best : Timeval} {times : List Timeval} {better : Timeval → Timeval → Bool} {key : Timeval → Int}

theorem Timeval.before_iff (normalA : a.Normal) (normalB : b.Normal) : a.before b = true ↔ a.micros < b.micros := by
  obtain ⟨_, lowA, highA⟩ := normalA
  obtain ⟨_, lowB, highB⟩ := normalB
  unfold before micros
  split
  · simp only [true_iff]
    omega
  · split
    · split
      · simp only [true_iff]
        omega
      · simp only [Bool.false_eq_true, false_iff]
        omega
    · simp only [Bool.false_eq_true, false_iff]
      omega

/-- What is computed from two times is exact as a `long` and as a `double`. -/
theorem getTotalTimeTaken_fits (normalA : a.Normal) (normalB : b.Normal) :
    a.micros < 2 ^ 53 ∧ b.micros < 2 ^ 53 ∧ (getTotalTimeTaken a b).natAbs < 2 ^ 53 := by
  obtain ⟨⟨_, secondsA⟩, lowA, highA⟩ := normalA
  obtain ⟨⟨_, secondsB⟩, lowB, highB⟩ := normalB
  simp only [getTotalTimeTaken, Timeval.micros]
  omega

/-- The loop comes to one of the times, and none has a smaller key. -/
theorem keepBest_spec (normal : ∀ time ∈ best :: times, time.Normal)
    (compares : ∀ a b : Timeval, a.Normal → b.Normal → (better a b = true ↔ key a < key b)) :
    keepBest better best times ∈ best :: times ∧
    ∀ time ∈ best :: times, key (keepBest better best times) ≤ key time := by
  induction times generalizing best with
  | nil => exact ⟨List.mem_cons_self .., fun time member => by rw [List.mem_singleton.mp member]; exact le_rfl⟩
  | cons time times ih =>
    have normalBest := normal best (List.mem_cons_self ..)
    have compare := compares time best (normal time (List.mem_cons_of_mem _ (List.mem_cons_self ..))) normalBest
    have later : ∀ other ∈ times, other.Normal := fun other member =>
      normal other (List.mem_cons_of_mem _ (List.mem_cons_of_mem _ member))
    rw [keepBest]
    by_cases replaces : better time best = true
    · rw [if_pos replaces]
      obtain ⟨member, least⟩ := ih fun other member => normal other (List.mem_cons_of_mem _ member)
      refine ⟨List.mem_cons_of_mem _ member, fun other among => ?_⟩
      rcases List.mem_cons.mp among with rfl | among
      · exact (least time (List.mem_cons_self ..)).trans (compare.mp replaces).le
      · exact least other among
    · rw [if_neg replaces]
      obtain ⟨member, least⟩ := ih (List.forall_mem_cons.mpr ⟨normalBest, later⟩)
      refine ⟨?_, fun other among => ?_⟩
      · rcases List.mem_cons.mp member with same | old
        · rw [same]
          exact List.mem_cons_self ..
        · exact List.mem_cons_of_mem _ (List.mem_cons_of_mem _ old)
      · rcases List.mem_cons.mp among with rfl | among
        · exact least other (List.mem_cons_self ..)
        · rcases List.mem_cons.mp among with rfl | among
          · exact (least best (List.mem_cons_self ..)).trans (not_lt.mp fun less => replaces (compare.mpr less))
          · exact least other (List.mem_cons_of_mem _ among)

variable {ctx : ThreadReport} {ctxs : List ThreadReport}

theorem smallestStartTime_spec (normal : ∀ report ∈ ctx :: ctxs, report.startTime.Normal) :
    (∃ report ∈ ctx :: ctxs, report.startTime = smallestStartTime ctx ctxs) ∧
      ∀ report ∈ ctx :: ctxs, (smallestStartTime ctx ctxs).micros ≤ report.startTime.micros := by
  have normal' : ∀ time ∈ (ctx :: ctxs).map (·.startTime), time.Normal := List.forall_mem_map.mpr normal
  have spec : smallestStartTime ctx ctxs ∈ (ctx :: ctxs).map (·.startTime) ∧
      ∀ time ∈ (ctx :: ctxs).map (·.startTime), (smallestStartTime ctx ctxs).micros ≤ time.micros :=
    keepBest_spec normal' fun _ _ normalA normalB => Timeval.before_iff normalA normalB
  exact ⟨List.mem_map.mp spec.1, fun report member => spec.2 _ (List.mem_map_of_mem member)⟩

theorem largestEndTime_spec (normal : ∀ report ∈ ctx :: ctxs, report.endTime.Normal) :
    (∃ report ∈ ctx :: ctxs, report.endTime = largestEndTime ctx ctxs) ∧
      ∀ report ∈ ctx :: ctxs, report.endTime.micros ≤ (largestEndTime ctx ctxs).micros := by
  have normal' : ∀ time ∈ (ctx :: ctxs).map (·.endTime), time.Normal := List.forall_mem_map.mpr normal
  have spec : largestEndTime ctx ctxs ∈ (ctx :: ctxs).map (·.endTime) ∧
      ∀ time ∈ (ctx :: ctxs).map (·.endTime), -(largestEndTime ctx ctxs).micros ≤ -time.micros :=
    keepBest_spec normal' fun _ _ normalA normalB => (Timeval.before_iff normalB normalA).trans (by omega)
  exact ⟨List.mem_map.mp spec.1, fun report member => by
    have least := spec.2 _ (List.mem_map_of_mem member)
    omega⟩

end Times

section Bytes

variable {ctxs : List ThreadReport} {total : UInt64}

theorem partSize_sum_le (ctxs : List ThreadReport) :
    (ctxs.map (·.partSize.toNat)).sum ≤ ctxs.length * 4294967295 := by
  induction ctxs with
  | nil => exact Nat.le_refl _
  | cons ctx ctxs ih =>
    have small := ctx.partSize.toNat_lt
    rw [List.map_cons, List.sum_cons, List.length_cons]
    omega

theorem totalBytes_toNat (room : total.toNat + (ctxs.map (·.partSize.toNat)).sum < 18446744073709551616) :
    (totalBytes total ctxs).toNat = total.toNat + (ctxs.map (·.partSize.toNat)).sum := by
  induction ctxs generalizing total with
  | nil => rfl
  | cons ctx ctxs ih =>
    rw [List.map_cons, List.sum_cons] at room
    have added : (total + ctx.partSize.toUInt64).toNat = total.toNat + ctx.partSize.toNat := by
      rw [UInt64.toNat_add, UInt32.toNat_toUInt64, Nat.mod_eq_of_lt (show _ < 18446744073709551616 by omega)]
    rw [totalBytes, ih (by omega), added, List.map_cons, List.sum_cons, Nat.add_assoc]

/-- The parts add up to the file, as long as each of their sizes fits in 32 bits. -/
theorem totalBytes_parts_iff {parts : List (List UInt8)} (few : ctxs.length ≤ 255)
    (sizes : ctxs.map (·.partSize) = parts.map fun part => (openPartition part).partSize) :
    (totalBytes 0 ctxs).toNat = parts.flatten.length ↔ ∀ part ∈ parts, part.length < 2 ^ 32 := by
  have room := partSize_sum_le ctxs
  have reduced : ctxs.map (·.partSize.toNat) = (parts.map List.length).map (· % 4294967296) := by
    have nats := congrArg (List.map UInt32.toNat) sizes
    rw [List.map_map, List.map_map] at nats
    rw [List.map_map]
    exact nats
  rw [totalBytes_toNat (by rw [UInt64.toNat_zero]; omega), reduced, UInt64.toNat_zero, Nat.zero_add,
    List.length_flatten,
    List.sum_map_mod_eq_iff, List.forall_mem_map]
  exact forall₂_congr fun part _ => Nat.mod_eq_iff_lt (by decide)

end Bytes

/-- The report covers all threads: its time is the longest from the start of one
to the end of another, and its bytes are those of the file, as long as the size
of each part fits in 32 bits. -/
theorem statistics_cover_all_threads {ctx : ThreadReport} {ctxs : List ThreadReport} {parts : List (List UInt8)}
    (few : (ctx :: ctxs).length ≤ 255)
    (normal : ∀ report ∈ ctx :: ctxs, report.startTime.Normal ∧ report.endTime.Normal)
    (sizes : (ctx :: ctxs).map (·.partSize) = parts.map fun part => (openPartition part).partSize) :
    (∀ a ∈ ctx :: ctxs, ∀ b ∈ ctx :: ctxs, b.endTime.micros - a.startTime.micros ≤ (reportStatistics ctx ctxs).2) ∧
    (∃ a ∈ ctx :: ctxs, ∃ b ∈ ctx :: ctxs, b.endTime.micros - a.startTime.micros = (reportStatistics ctx ctxs).2) ∧
    ((reportStatistics ctx ctxs).1.toNat = parts.flatten.length ↔ ∀ part ∈ parts, part.length < 2 ^ 32) := by
  obtain ⟨⟨a, memberA, sameA⟩, first⟩ := smallestStartTime_spec fun report member => (normal report member).1
  obtain ⟨⟨b, memberB, sameB⟩, last⟩ := largestEndTime_spec fun report member => (normal report member).2
  have total : (reportStatistics ctx ctxs).2 =
      (largestEndTime ctx ctxs).micros - (smallestStartTime ctx ctxs).micros := rfl
  rw [total]
  exact ⟨fun a memberA b memberB => Int.sub_le_sub (last b memberB) (first a memberA),
    ⟨a, memberA, b, memberB, by rw [sameA, sameB]⟩, totalBytes_parts_iff few sizes⟩

/-- The first of two threads starts last, and ends last. -/
theorem statistics_cover_all_threads_two :
    let ctx : ThreadReport := ⟨⟨1, 999999⟩, ⟨3, 1⟩, 3⟩
    let other : ThreadReport := ⟨⟨1, 5⟩, ⟨2, 0⟩, 2⟩
    reportStatistics ctx [other] = (5, 1999996) ∧
      (∀ a ∈ [ctx, other], ∀ b ∈ [ctx, other], b.endTime.micros - a.startTime.micros ≤ 1999996) ∧
      (reportStatistics ctx [other]).1.toNat = [[(7 : UInt8), 8, 9], [10, 11]].flatten.length := by
  intro ctx other
  have normal : ∀ report ∈ [ctx, other], report.startTime.Normal ∧ report.endTime.Normal := by decide
  have sizes : [ctx, other].map (·.partSize) = [[7, 8, 9], [10, 11]].map fun part => (openPartition part).partSize := rfl
  obtain ⟨bound, _, bytes⟩ := statistics_cover_all_threads (by decide) normal sizes
  exact ⟨by decide, bound, bytes.mpr (by decide)⟩

end UCP
