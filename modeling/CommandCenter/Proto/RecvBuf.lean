import CommandCenter.Library.Run

/-!
# The receive buffer

`RecvBuf` of `crates/bnetcc-proto/src/buf.rs`: a vector whose first `head` bytes have been read.
The cursor is within the vector by construction. Capacity is not modelled.

Through `asSlice` the buffer is a queue of bytes, whether or not it compacts:

* `RecvBuf.asSlice_extendFromSlice`, `RecvBuf.asSlice_read`: input is appended.
* `RecvBuf.asSlice_consume`: read bytes are dropped from the front.
-/

namespace CommandCenter.Proto

/-- A growable receive buffer with a read cursor. -/
@[ext] structure RecvBuf where
  buf : List UInt8
  head : Nat
  head_le : head ≤ buf.length

namespace RecvBuf

def new : RecvBuf := ⟨[], 0, Nat.le_refl _⟩

def asSlice (b : RecvBuf) : List UInt8 := b.buf.drop b.head

/-- Number of unread bytes. -/
def len (b : RecvBuf) : Nat := b.buf.length - b.head

/-- True if nothing is unread. -/
def isEmpty (b : RecvBuf) : Bool := b.len == 0

/-- Append bytes to the tail. -/
def extendFromSlice (b : RecvBuf) (data : List UInt8) : RecvBuf :=
  ⟨b.buf ++ data, b.head, by
    have h := b.head_le
    rw [List.length_append]
    omega⟩

/-- Mark `n` bytes as read, and compact once the consumed prefix is at least half the buffer. -/
def consume (b : RecvBuf) (n : Nat) : RecvBuf :=
  let head := min (b.head + n) b.buf.length
  if b.buf.length ≤ head then new
  else if b.buf.length / 2 ≤ head ∧ 512 ≤ head then ⟨b.buf.drop head, 0, Nat.zero_le _⟩
  else ⟨b.buf, head, Nat.min_le_right _ _⟩

def clear (_ : RecvBuf) : RecvBuf := ⟨[], 0, Nat.le_refl _⟩

/-! ## Reading into the tail -/

/-- A buffer whose bytes from `start` on are writable. -/
structure Tail where
  base : RecvBuf
  start : Nat
  head_le : base.head ≤ start

/-- Number of writable bytes. -/
def Tail.room (t : Tail) : Nat := t.base.buf.length - t.start

/-- The buffer that `writableTail` enlarges: a read-out one starts afresh. -/
def reset (b : RecvBuf) : RecvBuf := if 0 < b.head ∧ b.head = b.buf.length then new else b

/-- Ensure `n` writable bytes and return the writable tail. -/
def writableTail (b : RecvBuf) (n : Nat) : Tail :=
  ⟨b.reset.extendFromSlice (List.replicate n 0), b.reset.buf.length, b.reset.head_le⟩

/-- Bytes are written at the front of the tail, which has room for them. -/
def Tail.write (t : Tail) (data : List UInt8) (_hroom : data.length ≤ t.room) : Tail :=
  ⟨⟨t.base.buf.take t.start ++ (data ++ t.base.buf.drop (t.start + data.length)), t.base.head, by
      have h₁ := t.head_le
      have h₂ := t.base.head_le
      simp only [List.length_append, List.length_take, List.length_drop]
      omega⟩,
    t.start, t.head_le⟩

/-- Commit `written` of the `requested` bytes: the excess, a part of the tail, is cut off. -/
def Tail.commit (t : Tail) (written requested : Nat) (hroom : requested - written ≤ t.room) :
    RecvBuf :=
  ⟨t.base.buf.take (t.base.buf.length - (requested - written)), t.base.head, by
    have h₁ := t.head_le
    have h₂ := t.base.head_le
    unfold room at hroom
    rw [List.length_take]
    omega⟩

theorem room_writableTail (b : RecvBuf) (n : Nat) : (b.writableTail n).room = n := by
  simp [Tail.room, writableTail, extendFromSlice]

theorem Tail.room_write (t : Tail) (data : List UInt8) (hroom : data.length ≤ t.room) :
    (t.write data hroom).room = t.room := by
  unfold room at hroom
  simp only [room, write, List.length_append, List.length_take, List.length_drop]
  omega

/-- One read from a socket: `data` arrives in a tail with room for `spare` more bytes. -/
def read (b : RecvBuf) (data : List UInt8) (spare : Nat) : RecvBuf :=
  let requested := data.length + spare
  have hwrite : data.length ≤ (b.writableTail requested).room := by
    rw [room_writableTail]
    exact Nat.le_add_right _ _
  have hcommit : requested - data.length ≤
      ((b.writableTail requested).write data hwrite).room := by
    rw [Tail.room_write, room_writableTail]
    exact Nat.sub_le _ _
  ((b.writableTail requested).write data hwrite).commit data.length requested hcommit

/-! ## A queue of bytes -/

@[simp] theorem asSlice_new : new.asSlice = [] := rfl

@[simp] theorem asSlice_clear (b : RecvBuf) : b.clear.asSlice = [] := rfl

theorem length_asSlice (b : RecvBuf) : b.asSlice.length = b.len := List.length_drop

theorem isEmpty_iff (b : RecvBuf) : b.isEmpty = true ↔ b.asSlice = [] := by
  rw [isEmpty, beq_iff_eq, ← length_asSlice, List.length_eq_zero_iff]

@[simp] theorem asSlice_extendFromSlice (b : RecvBuf) (data : List UInt8) :
    (b.extendFromSlice data).asSlice = b.asSlice ++ data :=
  List.drop_append_of_le_length b.head_le

theorem asSlice_reset (b : RecvBuf) : b.reset.asSlice = b.asSlice := by
  unfold reset
  split
  · rename_i h
    rw [asSlice_new, asSlice, h.2, List.drop_length]
  · rfl

theorem read_eq (b : RecvBuf) (data : List UInt8) (spare : Nat) :
    b.read data spare = b.reset.extendFromSlice data := by
  have hfill : (List.replicate (data.length + spare) (0 : UInt8)).drop data.length =
      List.replicate spare 0 := by
    rw [List.drop_replicate, Nat.add_sub_cancel_left]
  have hbuf : (b.read data spare).buf = b.reset.buf ++ data := by
    simp only [read, Tail.commit, Tail.write, writableTail, extendFromSlice,
      List.take_left, List.drop_append, Nat.add_sub_cancel_left, hfill]
    rw [List.drop_eq_nil_of_le (Nat.le_add_right _ _), List.nil_append, ← List.append_assoc]
    simp only [List.length_append, List.length_replicate]
    rw [Nat.add_sub_cancel, ← List.length_append]
    exact List.take_left
  exact RecvBuf.ext hbuf rfl

@[simp] theorem asSlice_read (b : RecvBuf) (data : List UInt8) (spare : Nat) :
    (b.read data spare).asSlice = b.asSlice ++ data := by
  rw [read_eq, asSlice_extendFromSlice, asSlice_reset]

/-- Reading on drops bytes from the front, compaction or not. -/
@[simp] theorem asSlice_consume (b : RecvBuf) (n : Nat) :
    (b.consume n).asSlice = b.asSlice.drop n := by
  unfold consume
  dsimp only
  split
  · rename_i hall
    have hlen : b.asSlice.length ≤ n := by
      rw [length_asSlice, len]
      omega
    rw [asSlice_new, List.drop_eq_nil_of_le hlen]
  · rename_i hsome
    have hhead : min (b.head + n) b.buf.length = b.head + n := by omega
    simp only [hhead]
    split
    · exact (List.drop_drop).symm
    · exact (List.drop_drop).symm

end RecvBuf

/-!
## The receive buffer over whole runs

Beside the buffer there is a record of all bytes that were appended and of how many of them have been
consumed. Through `as_slice` the buffer holds the others, however appending, partial reads and
compaction follow one another.

* `head_consume`: a buffer that has been read from holds few bytes that were read.
* `recvBuf_is_queue`: what holds of every state of a run.
-/

open Library

/-! ## What is done to a buffer -/

/-- A call on a buffer, or a read into its tail: `writable_tail` for as many bytes as `tail`, all of
them written, and `commit` of the first `written`. -/
inductive BufferOp where
  | extend_from_slice (data : List UInt8)
  | read (tail : List UInt8) (written : Nat) (h : written ≤ tail.length)
  | consume (n : Nat)
  | clear

namespace RecvBuf

/-- `writable_tail` for some bytes, all of them written, and `commit` of the first `written`. -/
def readInto (b : RecvBuf) (tail : List UInt8) (written : Nat) : RecvBuf :=
  have hwrite : tail.length ≤ (b.writableTail tail.length).room :=
    Nat.le_of_eq (room_writableTail b tail.length).symm
  have hcommit : tail.length - written ≤ ((b.writableTail tail.length).write tail hwrite).room := by
    rw [Tail.room_write, room_writableTail]
    exact Nat.sub_le _ _
  ((b.writableTail tail.length).write tail hwrite).commit written tail.length hcommit

def apply (b : RecvBuf) : BufferOp → RecvBuf
  | .extend_from_slice data => b.extendFromSlice data
  | .read tail written _ => b.readInto tail written
  | .consume n => b.consume n
  | .clear => b.clear

/-- Of the tail the first bytes are appended. -/
theorem readInto_eq (b : RecvBuf) {tail : List UInt8} {written : Nat} (h : written ≤ tail.length) :
    b.readInto tail written = b.reset.extendFromSlice (tail.take written) := by
  have hbuf : (b.readInto tail written).buf = b.reset.buf ++ tail.take written := by
    have hroom : (List.replicate tail.length (0 : UInt8)).drop tail.length = [] :=
      List.drop_eq_nil_of_le (Nat.le_of_eq List.length_replicate)
    simp only [readInto, Tail.commit, Tail.write, writableTail, extendFromSlice, List.take_left,
      List.drop_append, Nat.add_sub_cancel_left, hroom]
    rw [List.drop_eq_nil_of_le (Nat.le_add_right _ _), List.nil_append, List.append_nil,
      List.length_append, List.take_append]
    have hall : b.reset.buf.length + tail.length - (tail.length - written) =
        b.reset.buf.length + written := by omega
    rw [hall, List.take_of_length_le (Nat.le_add_right _ _), Nat.add_sub_cancel_left]
  exact RecvBuf.ext hbuf rfl

/-! ## Bytes that were read -/

/-- After a read a buffer holds fewer than 512 bytes that were read, or fewer than half of it. -/
theorem head_consume (b : RecvBuf) (n : Nat) :
    (b.consume n).head < 512 ∨ (b.consume n).head < (b.consume n).buf.length / 2 := by
  unfold consume
  dsimp only
  split
  · exact .inl (by decide)
  · split
    · exact .inl (Nat.zero_lt_succ _)
    · rename_i hkept
      dsimp only
      omega

/-- The bytes that were read are not more than 512 or than the others. -/
def Tidy (b : RecvBuf) : Prop := b.head ≤ max 512 b.len

theorem tidy_consume (b : RecvBuf) (n : Nat) : (b.consume n).Tidy := by
  have hkept := head_consume b n
  unfold Tidy len
  omega

theorem Tidy.extend {b : RecvBuf} (h : b.Tidy) (data : List UInt8) : (b.extendFromSlice data).Tidy := by
  unfold Tidy len at h ⊢
  show b.head ≤ max 512 ((b.buf ++ data).length - b.head)
  rw [List.length_append]
  omega

theorem Tidy.reset {b : RecvBuf} (h : b.Tidy) : b.reset.Tidy := by
  unfold RecvBuf.reset
  split
  · exact Nat.zero_le _
  · exact h

theorem Tidy.apply {b : RecvBuf} (h : b.Tidy) (op : BufferOp) : (b.apply op).Tidy := by
  cases op with
  | extend_from_slice data => exact h.extend data
  | read tail written hle =>
    show (b.readInto tail written).Tidy
    rw [readInto_eq b hle]
    exact h.reset.extend _
  | consume n => exact tidy_consume b n
  | clear => exact Nat.zero_le _

end RecvBuf

/-! ## The record of a run -/

/-- All bytes that were appended, and how many of them have been consumed or dropped. -/
structure Received where
  appended : List UInt8
  consumed : Nat

namespace Received

def unread (r : Received) : List UInt8 := r.appended.drop r.consumed

def note (r : Received) : BufferOp → Received
  | .extend_from_slice data => { r with appended := r.appended ++ data }
  | .read tail written _ => { r with appended := r.appended ++ tail.take written }
  | .consume n => { r with consumed := r.consumed + n }
  | .clear => { r with consumed := r.appended.length }

end Received

/-- A buffer with the record of its run. -/
structure Recorded where
  buffer : RecvBuf
  received : Received

namespace Recorded

def new : Recorded := ⟨.new, ⟨[], 0⟩⟩

def step (s : Recorded) (op : BufferOp) : Recorded := ⟨s.buffer.apply op, s.received.note op⟩

/-- No more is consumed than is there. -/
def Legal (s : Recorded) : BufferOp → Prop
  | .consume n => n ≤ s.buffer.len
  | _ => True

/-- What holds of a buffer at any time. -/
structure Ok (s : Recorded) : Prop where
  slice : s.buffer.asSlice = s.received.unread
  consumed : s.received.consumed ≤ s.received.appended.length
  head : s.buffer.head ≤ s.buffer.buf.length
  tidy : s.buffer.head ≤ max 512 s.buffer.len

theorem Ok.extend {s : Recorded} (h : s.Ok) (data : List UInt8) :
    s.received.unread ++ data = (s.received.appended ++ data).drop s.received.consumed :=
  (List.drop_append_of_le_length h.consumed).symm

/-- A call leaves a buffer with what the record says. -/
theorem Ok.step {s : Recorded} (h : s.Ok) {op : BufferOp} (hlegal : s.Legal op) : (s.step op).Ok := by
  refine ⟨?_, ?_, (s.step op).buffer.head_le, RecvBuf.Tidy.apply h.tidy op⟩
  · cases op with
    | extend_from_slice data =>
      show (s.buffer.extendFromSlice data).asSlice = _
      rw [RecvBuf.asSlice_extendFromSlice, h.slice]
      exact h.extend data
    | read tail written hle =>
      show (s.buffer.readInto tail written).asSlice = _
      rw [RecvBuf.readInto_eq _ hle, RecvBuf.asSlice_extendFromSlice, RecvBuf.asSlice_reset, h.slice]
      exact h.extend _
    | consume n =>
      show (s.buffer.consume n).asSlice = s.received.appended.drop (s.received.consumed + n)
      rw [RecvBuf.asSlice_consume, h.slice]
      exact List.drop_drop
    | clear => exact List.drop_length.symm
  · cases op with
    | extend_from_slice data =>
      show s.received.consumed ≤ (s.received.appended ++ data).length
      rw [List.length_append]
      exact Nat.le_add_right_of_le h.consumed
    | read tail written hle =>
      show s.received.consumed ≤ (s.received.appended ++ tail.take written).length
      rw [List.length_append]
      exact Nat.le_add_right_of_le h.consumed
    | consume n =>
      have hlen : s.received.unread.length = s.buffer.len := by
        rw [← h.slice, RecvBuf.length_asSlice]
      have hlegal : n ≤ s.buffer.len := hlegal
      have hconsumed := h.consumed
      unfold Received.unread at hlen
      rw [List.length_drop] at hlen
      show s.received.consumed + n ≤ s.received.appended.length
      omega
    | clear => exact Nat.le_refl _

theorem new_ok : new.Ok := ⟨rfl, Nat.le_refl _, Nat.le_refl _, Nat.zero_le _⟩

/-- A step leaves few bytes that were read, where it consumes. -/
def Compacts (s : Recorded) : BufferOp → Prop
  | .consume n => (s.step (.consume n)).buffer.head < 512 ∨
      (s.step (.consume n)).buffer.head < (s.step (.consume n)).buffer.buf.length / 2
  | _ => True

/-- In a run that consumes no more than is there, a buffer always holds the bytes appended and not
consumed, its head is within it, and it keeps no more of the others than 512 or than it holds; right
after bytes were consumed it keeps fewer than 512 of them or than half of it. -/
theorem recvBuf_is_queue (ops : List BufferOp) (h : Along step Legal new ops) :
    Always step Ok new ops ∧ Along step Compacts new ops := by
  refine ⟨h.always (fun s op hok hlegal => hok.step hlegal) new_ok, along_of_forall fun op _ s => ?_⟩
  cases op with
  | extend_from_slice data => trivial
  | read tail written hle => trivial
  | consume n => exact RecvBuf.head_consume s.buffer n
  | clear => trivial

/-- A read into the tail, of which two bytes of three come, and one of them consumed. -/
theorem recvBuf_is_queue_read :
    Along step Legal new [.read [7, 8, 9] 2 (by decide), .consume 1] ∧
      Always step Ok new [.read [7, 8, 9] 2 (by decide), .consume 1] :=
  have hlegal : Along step Legal new [.read [7, 8, 9] 2 (by decide), .consume 1] :=
    ⟨trivial, (by decide : 1 ≤ (RecvBuf.new.readInto [7, 8, 9] 2).len), trivial⟩
  ⟨hlegal, (recvBuf_is_queue _ hlegal).1⟩

end Recorded

end CommandCenter.Proto
