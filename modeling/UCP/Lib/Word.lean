import Mathlib.Data.Nat.Bitwise
import Mathlib.Data.Set.Insert

namespace Word

/-- The C expression `(b3 << 24) | (b2 << 16) | (b1 << 8) | b0`. Bytes promote
to 32-bit integers, so the top shift wraps instead of widening. -/
def pack (b3 b2 b1 b0 : UInt8) : UInt32 :=
  (b3.toUInt32 <<< 24) ||| (b2.toUInt32 <<< 16) ||| (b1.toUInt32 <<< 8) ||| b0.toUInt32

/-- The C expression `(w >> k) & 0xFF`, stored into a byte. -/
def byte (w k : UInt32) : UInt8 := ((w >>> k) &&& 0xFF).toUInt8

theorem or_eq_add_of_dvd {a b : Nat} (k : Nat) (multiple : 2 ^ k ∣ a) (small : b < 2 ^ k) : a ||| b = a + b := by
  obtain ⟨m, rfl⟩ := multiple
  exact (Nat.two_pow_add_eq_or_of_lt small m).symm

theorem pack_toNat (b3 b2 b1 b0 : UInt8) :
    (pack b3 b2 b1 b0).toNat =
      b3.toNat * 16777216 + b2.toNat * 65536 + b1.toNat * 256 + b0.toNat := by
  have h3 := b3.toNat_lt
  have h2 := b2.toNat_lt
  have h1 := b1.toNat_lt
  have h0 := b0.toNat_lt
  simp only [pack, UInt32.toNat_or, UInt32.toNat_shiftLeft, UInt8.toNat_toUInt32]
  simp (disch := omega) only [Nat.shiftLeft_eq, UInt32.reduceToNat, Nat.reducePow, Nat.mod_eq_of_lt]
  have upper : b3.toNat * 16777216 ||| b2.toNat * 65536 = b3.toNat * 16777216 + b2.toNat * 65536 :=
    or_eq_add_of_dvd 24 ⟨b3.toNat, by omega⟩ (by omega)
  have middle : b3.toNat * 16777216 + b2.toNat * 65536 ||| b1.toNat * 256 =
      b3.toNat * 16777216 + b2.toNat * 65536 + b1.toNat * 256 :=
    or_eq_add_of_dvd 16 ⟨b3.toNat * 256 + b2.toNat, by omega⟩ (by omega)
  rw [upper, middle]
  exact or_eq_add_of_dvd 8 ⟨b3.toNat * 65536 + b2.toNat * 256 + b1.toNat, by omega⟩ (by omega)

theorem byte_toNat (w k : UInt32) : (byte w k).toNat = w.toNat / 2 ^ (k.toNat % 32) % 256 := by
  simp only [byte, UInt32.toNat_toUInt8, UInt32.toNat_and, UInt32.toNat_shiftRight,
    Nat.shiftRight_eq_div_pow, UInt32.reduceToNat, Nat.and_two_pow_sub_one_eq_mod _ 8]
  omega

/-- Splitting a word into its four bytes loses nothing. -/
@[simp] theorem pack_bytes (w : UInt32) : pack (byte w 24) (byte w 16) (byte w 8) (byte w 0) = w := by
  have bound := w.toNat_lt
  rw [← UInt32.toNat_inj, pack_toNat]
  simp only [byte_toNat, UInt32.reduceToNat, Nat.reduceMod, Nat.reducePow]
  omega

theorem byte_pack (b3 b2 b1 b0 : UInt8) :
    byte (pack b3 b2 b1 b0) 24 = b3 ∧ byte (pack b3 b2 b1 b0) 16 = b2 ∧
      byte (pack b3 b2 b1 b0) 8 = b1 ∧ byte (pack b3 b2 b1 b0) 0 = b0 := by
  have h3 := b3.toNat_lt
  have h2 := b2.toNat_lt
  have h1 := b1.toNat_lt
  have h0 := b0.toNat_lt
  simp only [← UInt8.toNat_inj, byte_toNat, pack_toNat, UInt32.reduceToNat, Nat.reduceMod, Nat.reducePow]
  omega

/-- The C expression `(n >> k) & 0xFF` for a `size_t`, stored into a byte. -/
def byteOfSize (n k : Nat) : UInt8 := UInt8.ofNat ((n >>> k) &&& 0xFF)

/-- A 16-bit length is read as `(hi << 8) | lo` into a wider integer, without wrapping. -/
def pack16 (hi lo : UInt8) : Nat := (hi.toNat <<< 8) ||| lo.toNat

theorem byteOfSize_toNat (n k : Nat) : (byteOfSize n k).toNat = n / 2 ^ k % 256 := by
  simp only [byteOfSize, UInt8.toNat_ofNat', Nat.shiftRight_eq_div_pow, Nat.and_two_pow_sub_one_eq_mod _ 8]
  omega

theorem pack16_eq (hi lo : UInt8) : pack16 hi lo = hi.toNat * 256 + lo.toNat := by
  have low := lo.toNat_lt
  rw [pack16, Nat.shiftLeft_eq]
  exact or_eq_add_of_dvd 8 ⟨hi.toNat, Nat.mul_comm _ _⟩ low

theorem pack16_bytes {n : Nat} (small : n < 65536) : pack16 (byteOfSize n 8) (byteOfSize n 0) = n := by
  simp only [pack16_eq, byteOfSize_toNat, Nat.reducePow]
  omega

theorem byteOfSize_pack16 (hi lo : UInt8) :
    byteOfSize (pack16 hi lo) 8 = hi ∧ byteOfSize (pack16 hi lo) 0 = lo := by
  have high := hi.toNat_lt
  have low := lo.toNat_lt
  simp only [← UInt8.toNat_inj, byteOfSize_toNat, pack16_eq, Nat.reducePow]
  omega

/-- A word below 256 is the byte it is stored into. -/
theorem byte_toUInt32 {w : UInt32} (small : w < 256) : (byte w 0).toUInt32 = w := by
  have bound : w.toNat < 256 := UInt32.lt_iff_toNat_lt.mp small
  simp only [← UInt32.toNat_inj, UInt8.toNat_toUInt32, byte_toNat, UInt32.reduceToNat,
    Nat.reduceMod, Nat.reducePow]
  omega

@[simp] theorem byte_of_toUInt32 (b : UInt8) : byte b.toUInt32 0 = b := by
  have bound := b.toNat_lt
  simp only [← UInt8.toNat_inj, UInt8.toNat_toUInt32, byte_toNat, UInt32.reduceToNat,
    Nat.reduceMod, Nat.reducePow]
  omega

theorem ofNat_inj {i j : Nat} (hi : i < 2 ^ 32) (hj : j < 2 ^ 32) (same : UInt32.ofNat i = UInt32.ofNat j) :
    i = j := by
  have numbers := congrArg UInt32.toNat same
  rwa [UInt32.toNat_ofNat_of_lt' hi, UInt32.toNat_ofNat_of_lt' hj] at numbers

theorem ofNat_le_iff {i j : Nat} (hi : i < 2 ^ 32) (hj : j < 2 ^ 32) : UInt32.ofNat i ≤ UInt32.ofNat j ↔ i ≤ j := by
  rw [UInt32.le_iff_toNat_le, UInt32.toNat_ofNat_of_lt' hi, UInt32.toNat_ofNat_of_lt' hj]

/-- The words met on the way up from `first` to `last`, through 0 if `last` is
the smaller one. -/
def arc (first last : UInt32) : Set UInt32 := {x | x - first ≤ last - first}

theorem mem_arc {first last x : UInt32} : x ∈ arc first last ↔ x - first ≤ last - first := Iff.rfl

theorem mem_arc_of_between {first last x : UInt32} (lower : first ≤ x) (upper : x ≤ last) : x ∈ arc first last := by
  rw [UInt32.le_iff_toNat_le] at lower upper
  rw [mem_arc, UInt32.le_iff_toNat_le, UInt32.toNat_sub, UInt32.toNat_sub]
  have bound := last.toNat_lt
  omega

theorem arc_self (x : UInt32) : arc x x = {x} := by
  ext y
  rw [mem_arc, Set.mem_singleton_iff, UInt32.le_iff_toNat_le, ← UInt32.toNat_inj, UInt32.toNat_sub, UInt32.toNat_sub]
  have hx := x.toNat_lt
  have hy := y.toNat_lt
  omega

/-- Where one arc ends right before another, the way through both of them may
go once around and be shorter, but meets no other word. -/
theorem arc_join_subset {first last first' last' : UInt32} (adjacent : last + 1 = first') :
    arc first last' ⊆ arc first last ∪ arc first' last' := by
  subst adjacent
  intro x member
  rw [Set.mem_union, mem_arc, mem_arc]
  rw [mem_arc] at member
  simp only [UInt32.le_iff_toNat_le, UInt32.toNat_sub, UInt32.toNat_add, UInt32.reduceToNat] at member ⊢
  have hx := x.toNat_lt
  have hf := first.toNat_lt
  have hl := last.toNat_lt
  have hl' := last'.toNat_lt
  omega

end Word
