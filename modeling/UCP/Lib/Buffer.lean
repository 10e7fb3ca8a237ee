import UCP.Lib.Overwrite
import UCP.Lib.Word

/-- The first index at which an access leaves the array it is meant for. -/
inductive MemFault
  | readOutOfBounds (index : Nat)
  | writeOutOfBounds (index : Nat)
  deriving DecidableEq, Repr

/-- A byte array of fixed size. -/
structure Buffer (n : Nat) where
  bytes : List UInt8
  size : bytes.length = n
  deriving DecidableEq

theorem Except.bind_eq_ok {ε α β : Type*} {x : Except ε α} {f : α → Except ε β} {b : β} :
    x.bind f = .ok b ↔ ∃ a, x = .ok a ∧ f a = .ok b := by
  cases x with
  | error e => simp [Except.bind]
  | ok a => simp [Except.bind]

namespace Mem

def load (buf : List UInt8) (i : Nat) : Except MemFault UInt8 :=
  match buf[i]? with
  | some b => .ok b
  | none => .error (.readOutOfBounds i)

/-- The word `(buf[i3] << 24) | (buf[i2] << 16) | (buf[i1] << 8) | buf[i0]`. -/
def loadWord (buf : List UInt8) (i3 i2 i1 i0 : Nat) : Except MemFault UInt32 := do
  let b3 ← load buf i3
  let b2 ← load buf i2
  let b1 ← load buf i1
  let b0 ← load buf i0
  pure (Word.pack b3 b2 b1 b0)

def loadRange (buf : List UInt8) (off len : Nat) : Except MemFault (List UInt8) :=
  if off + len ≤ buf.length then .ok ((buf.drop off).take len)
  else .error (.readOutOfBounds (max off buf.length))

def store (buf : List UInt8) (off : Nat) (bs : List UInt8) : Except MemFault (List UInt8) :=
  if off + bs.length ≤ buf.length then .ok (buf.overwrite 0 off bs)
  else .error (.writeOutOfBounds (max off buf.length))

/-- The C string in an array: its bytes in front of the first NUL. -/
def loadString (buf : List UInt8) : Except MemFault (List UInt8) :=
  if 0 ∈ buf then .ok (buf.takeWhile (· ≠ 0))
  else .error (.readOutOfBounds buf.length)

theorem loadString_eq_ok {name rest : List UInt8} (free : 0 ∉ name) :
    loadString (name ++ 0 :: rest) = .ok name := by
  have inside : ∀ b ∈ name, decide (b ≠ 0) = true := fun b member =>
    decide_eq_true fun zero => free (zero ▸ member)
  rw [loadString, if_pos (List.mem_append_right _ (List.mem_cons_self ..)), List.takeWhile_append_of_pos inside,
    List.takeWhile_cons_of_neg (by simp), List.append_nil]

theorem load_eq_ok {buf : List UInt8} {i : Nat} {b : UInt8} (entry : buf[i]? = some b) :
    load buf i = .ok b := by
  simp only [load, entry]

theorem load_isOk {buf : List UInt8} {i : Nat} (within : i < buf.length) : ∃ b, load buf i = .ok b :=
  ⟨buf[i], load_eq_ok (List.getElem?_eq_getElem within)⟩

theorem loadWord_isOk {buf : List UInt8} {i3 i2 i1 i0 : Nat} (h3 : i3 < buf.length) (h2 : i2 < buf.length)
    (h1 : i1 < buf.length) (h0 : i0 < buf.length) : ∃ w, loadWord buf i3 i2 i1 i0 = .ok w := by
  obtain ⟨b3, at3⟩ := load_isOk h3
  obtain ⟨b2, at2⟩ := load_isOk h2
  obtain ⟨b1, at1⟩ := load_isOk h1
  obtain ⟨b0, at0⟩ := load_isOk h0
  exact ⟨Word.pack b3 b2 b1 b0, by simp only [loadWord, at3, at2, at1, at0]; rfl⟩

theorem loadRange_eq_ok {buf : List UInt8} {off len : Nat} (within : off + len ≤ buf.length) :
    loadRange buf off len = .ok ((buf.drop off).take len) := if_pos within

theorem loadRange_isOk_iff {buf bs : List UInt8} {off len : Nat} :
    loadRange buf off len = .ok bs ↔ off + len ≤ buf.length ∧ bs = (buf.drop off).take len := by
  unfold loadRange
  split
  · rename_i within
    simp [within, eq_comm]
  · rename_i outside
    simp [outside]

/-- Storing right behind a prefix of known length. -/
theorem store_append {before rest bs : List UInt8} {off : Nat} (atEnd : before.length = off)
    (fits : bs.length ≤ rest.length) :
    store (before ++ rest) off bs = .ok (before ++ bs ++ rest.drop bs.length) := by
  subst atEnd
  have within : before.length + bs.length ≤ (before ++ rest).length := by
    rw [List.length_append]; omega
  rw [store, if_pos within, List.overwrite_of_le within, List.take_left, List.drop_append,
    List.drop_eq_nil_of_le (by omega), List.nil_append, Nat.add_sub_cancel_left]

theorem store_zero {buf bs : List UInt8} (fits : bs.length ≤ buf.length) :
    store buf 0 bs = .ok (bs ++ buf.drop bs.length) := by
  simpa only [List.nil_append] using @store_append [] buf bs 0 rfl fits

/-- A header stored at the front and a body stored right behind it. -/
theorem store_header_body {buf body : List UInt8} {off : Nat} {β : Type} (header : List UInt8)
    (next : List UInt8 → Except MemFault β) (atEnd : header.length = off)
    (fits : off + body.length ≤ buf.length) :
    (do let buf ← store buf 0 header
        let buf ← store buf off body
        next buf) = next (header ++ body ++ buf.drop (off + body.length)) := by
  have room : body.length ≤ (buf.drop header.length).length := by rw [List.length_drop]; omega
  have first : store buf 0 header = .ok (header ++ buf.drop header.length) := store_zero (by omega)
  have second := store_append atEnd room
  rw [List.drop_drop, atEnd] at second
  rw [first, atEnd]
  exact congrArg (· >>= next) second

end Mem

namespace Buffer

variable {n : Nat}

def zeros (n : Nat) : Buffer n := ⟨List.replicate n 0, List.length_replicate⟩

/-- `memcpy` to the start of the array; the bytes behind the copy stay. -/
def memcpy (dst : Buffer n) (src : List UInt8) : Except MemFault (Buffer n) :=
  if fits : src.length ≤ n then
    .ok ⟨src ++ dst.bytes.drop src.length, by
      rw [List.length_append, List.length_drop, dst.size]; omega⟩
  else .error (.writeOutOfBounds n)

theorem memcpy_eq_ok (dst : Buffer n) (src : List UInt8) (fits : src.length ≤ n) :
    ∃ out : Buffer n, dst.memcpy src = .ok out ∧ out.bytes = src ++ dst.bytes.drop src.length :=
  ⟨_, dif_pos fits, rfl⟩

theorem memcpy_isOk_iff {dst out : Buffer n} {src : List UInt8} :
    dst.memcpy src = .ok out ↔ src.length ≤ n ∧ out.bytes = src ++ dst.bytes.drop src.length := by
  unfold memcpy
  split
  · rename_i fits
    cases out
    simp [fits, eq_comm]
  · rename_i large
    simp [large]

/-- `strncpy` of a string, given by its bytes without the terminating NUL. -/
def strncpy (dst : Buffer n) (src : List UInt8) (count : Nat) : Except MemFault (Buffer n) :=
  dst.memcpy (src.take count ++ List.replicate (count - src.length) 0)

theorem strncpy_eq_ok (dst : Buffer n) (src : List UInt8) {count : Nat} (fits : count ≤ n) :
    ∃ out : Buffer n, dst.strncpy src count = .ok out ∧
      out.bytes = src.take count ++ List.replicate (count - src.length) 0 ++ dst.bytes.drop count := by
  have length : (src.take count ++ List.replicate (count - src.length) 0).length = count := by
    rw [List.length_append, List.length_take, List.length_replicate]
    omega
  obtain ⟨out, copied, bytes⟩ := dst.memcpy_eq_ok _ (length.trans_le fits)
  exact ⟨out, copied, by rw [bytes, length]⟩

/-- What `read` and `recvfrom` do with an array: they copy what fits of the
bytes that have come in to its front and return how much that was. -/
def receive (buffer : Buffer n) (incoming : List UInt8) : Nat × Buffer n :=
  ((incoming.take n).length,
    ⟨incoming.take n ++ buffer.bytes.drop (incoming.take n).length, by
      rw [List.length_append, List.length_drop, buffer.size, List.length_take]; omega⟩)

theorem receive_bytes {incoming : List UInt8} (buffer : Buffer n) (fits : incoming.length ≤ n) :
    (buffer.receive incoming).2.bytes = incoming ++ buffer.bytes.drop incoming.length := by
  simp only [receive, List.take_of_length_le fits]

theorem receive_length {incoming : List UInt8} (buffer : Buffer n) (fits : incoming.length ≤ n) :
    (buffer.receive incoming).1 = incoming.length := by
  simp only [receive, List.take_of_length_le fits]

end Buffer
