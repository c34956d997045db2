import Mathlib

/-! # Rust's panics and polls, and byte streams that answer them

A function that can panic returns `Except Panic`.  A poll is driven by a finite list
of what the inner stream decides at each call it receives (`ReadEvent`,
`WriteEvent`); `Outcome.waiting` says that the list ended while the poll was still
going on.  A `ByteStream` is the inner reader: the bytes it will deliver, in pieces
the events choose, and whether end of stream or silence follows them. -/
set_option autoImplicit false
namespace Gday.Lib.AsyncStream

inductive Panic where
  | sliceIndex
  | splitAt
  | lengthMismatch
  | assertion
  | debugAssertion
  | overflow
  | unwrap
  deriving DecidableEq, Repr

inductive ErrorKind where
  | invalidData
  | unexpectedEof
  | inner
  deriving DecidableEq, Repr

inductive Outcome (α : Type) where
  | ready (value : α)
  | failed (kind : ErrorKind)
  | pending
  | panicked (panic : Panic)
  | waiting
  deriving DecidableEq, Repr

def Outcome.map {α β : Type} (f : α → β) : Outcome α → Outcome β
  | .ready value => .ready (f value)
  | .failed kind => .failed kind
  | .pending => .pending
  | .panicked panic => .panicked panic
  | .waiting => .waiting

@[simp] theorem Outcome.map_eq_failed {α β : Type} (f : α → β) (outcome : Outcome α)
    (kind : ErrorKind) : outcome.map f = .failed kind ↔ outcome = .failed kind := by
  cases outcome <;> simp [Outcome.map]

@[simp] theorem Outcome.map_eq_waiting {α β : Type} (f : α → β) (outcome : Outcome α) :
    outcome.map f = .waiting ↔ outcome = .waiting := by
  cases outcome <;> simp [Outcome.map]

/-- `debug_assert!`: checked only in a build with debug assertions. -/
def debugAssert (debug : Bool) (condition : Bool) : Except Panic Unit :=
  if debug && !condition then .error .debugAssertion else .ok ()

/-- `&bytes[low..high]`. -/
def slice (bytes : List UInt8) (low high : Nat) : Except Panic (List UInt8) :=
  if low ≤ high ∧ high ≤ bytes.length then .ok ((bytes.drop low).take (high - low))
  else .error .sliceIndex

/-- `bytes.get(low..high)`. -/
def getRange (bytes : List UInt8) (low high : Nat) : Option (List UInt8) :=
  if low ≤ high ∧ high ≤ bytes.length then some ((bytes.drop low).take (high - low))
  else none

/-- `left - right` on `usize`, which wraps where overflow checks are off. -/
def subUsize (debug : Bool) (left right : Nat) : Except Panic Nat :=
  if right ≤ left then .ok (left - right)
  else if debug then .error .overflow
  else .ok (2 ^ 64 + left - right)

@[simp] theorem debugAssert_true (debug : Bool) : debugAssert debug true = .ok () := by
  simp [debugAssert]

theorem subUsize_of_le (debug : Bool) (left right : Nat) (le : right ≤ left) :
    subUsize debug left right = .ok (left - right) := if_pos le

theorem slice_take (bytes : List UInt8) (high : Nat) (le : high ≤ bytes.length) :
    slice bytes 0 high = .ok (bytes.take high) := by
  simp [slice, le]

/-! ## The inner reader -/

structure ByteStream where
  bytes : List UInt8
  closed : Bool
  deriving DecidableEq, Repr

/-- What the inner reader decides when polled: `ready extra` delivers at most
`extra + 1` bytes. -/
inductive ReadEvent where
  | pending
  | error
  | ready (extra : Nat)
  deriving DecidableEq, Repr

inductive ReadAnswer where
  | pending
  | error
  | filled (bytes : List UInt8)
  deriving DecidableEq, Repr

/-- One `poll_read` with room for `room` bytes.  Once its bytes are gone a closed
stream reports end of stream and an open one is pending. -/
def ByteStream.pollRead (stream : ByteStream) (room : Nat) : ReadEvent → ReadAnswer × ByteStream
  | .pending => (.pending, stream)
  | .error => (.error, stream)
  | .ready extra =>
      if stream.bytes = [] then
        (if stream.closed then .filled [] else .pending, stream)
      else
        (.filled (stream.bytes.take (min (extra + 1) room)),
          { stream with bytes := stream.bytes.drop (min (extra + 1) room) })

theorem ByteStream.pollRead_filled (stream next : ByteStream) (room : Nat) (event : ReadEvent)
    (bytes : List UInt8) (answer : stream.pollRead room event = (.filled bytes, next)) :
    stream.bytes = bytes ++ next.bytes ∧ bytes.length ≤ room ∧ next.closed = stream.closed := by
  cases event with
  | pending => simp [ByteStream.pollRead] at answer
  | error => simp [ByteStream.pollRead] at answer
  | ready extra =>
      simp only [ByteStream.pollRead] at answer
      by_cases empty : stream.bytes = []
      · rw [if_pos empty] at answer
        cases closed : stream.closed with
        | false => simp [closed] at answer
        | true =>
            simp only [closed, if_true, Prod.mk.injEq, ReadAnswer.filled.injEq] at answer
            obtain ⟨rfl, rfl⟩ := answer
            simp [closed]
      · rw [if_neg empty] at answer
        simp only [Prod.mk.injEq, ReadAnswer.filled.injEq] at answer
        obtain ⟨rfl, rfl⟩ := answer
        refine ⟨(List.take_append_drop _ _).symm, ?_, rfl⟩
        rw [List.length_take]
        omega

/-- An answer with no bytes is the end of a closed stream, where there was room. -/
theorem ByteStream.pollRead_empty (stream next : ByteStream) (room : Nat) (event : ReadEvent)
    (answer : stream.pollRead room event = (.filled [], next)) (positive : room ≠ 0) :
    stream.bytes = [] ∧ stream.closed = true ∧ next = stream := by
  cases event with
  | pending => simp [ByteStream.pollRead] at answer
  | error => simp [ByteStream.pollRead] at answer
  | ready extra =>
      simp only [ByteStream.pollRead] at answer
      by_cases empty : stream.bytes = []
      · rw [if_pos empty] at answer
        cases closed : stream.closed with
        | false => simp [closed] at answer
        | true =>
            simp only [closed, if_true, Prod.mk.injEq] at answer
            exact ⟨empty, rfl, answer.2.symm⟩
      · rw [if_neg empty] at answer
        simp only [Prod.mk.injEq, ReadAnswer.filled.injEq] at answer
        have lengths := congrArg List.length answer.1
        have nonempty := List.length_pos_iff.mpr empty
        rw [List.length_take, List.length_nil] at lengths
        omega

theorem ByteStream.pollRead_other (stream next : ByteStream) (room : Nat) (event : ReadEvent)
    (answer : ReadAnswer) (run : stream.pollRead room event = (answer, next))
    (notFilled : ∀ bytes, answer ≠ .filled bytes) : next = stream := by
  cases event with
  | pending => simp only [ByteStream.pollRead, Prod.mk.injEq] at run; exact run.2.symm
  | error => simp only [ByteStream.pollRead, Prod.mk.injEq] at run; exact run.2.symm
  | ready extra =>
      simp only [ByteStream.pollRead] at run
      by_cases empty : stream.bytes = []
      · rw [if_pos empty, Prod.mk.injEq] at run
        exact run.2.symm
      · rw [if_neg empty, Prod.mk.injEq] at run
        exact absurd run.1.symm (notFilled _)

theorem ByteStream.pollRead_error (stream next : ByteStream) (room : Nat) (event : ReadEvent)
    (answer : stream.pollRead room event = (.error, next)) : event = .error := by
  cases event with
  | pending => simp [ByteStream.pollRead] at answer
  | error => rfl
  | ready extra =>
      simp only [ByteStream.pollRead] at answer
      by_cases empty : stream.bytes = []
      · rw [if_pos empty] at answer
        cases closed : stream.closed <;> simp [closed] at answer
      · rw [if_neg empty] at answer
        simp at answer

theorem ByteStream.pollRead_pending (stream next : ByteStream) (room : Nat) (event : ReadEvent)
    (answer : stream.pollRead room event = (.pending, next)) :
    event = .pending ∨ (stream.bytes = [] ∧ stream.closed = false) := by
  cases event with
  | pending => exact Or.inl rfl
  | error => simp [ByteStream.pollRead] at answer
  | ready extra =>
      right
      simp only [ByteStream.pollRead] at answer
      by_cases empty : stream.bytes = []
      · rw [if_pos empty] at answer
        cases closed : stream.closed with
        | false => exact ⟨empty, rfl⟩
        | true => simp [closed] at answer
      · rw [if_neg empty] at answer
        simp at answer

/-! ## The inner writer -/

/-- A call the inner writer received: a write with the bytes it took, a flush or a
shutdown.  A write that was pending or failed took nothing and is not recorded. -/
inductive InnerCall where
  | write (taken : List UInt8)
  | flush
  | shutdown
  deriving DecidableEq, Repr

/-- The bytes that a sequence of inner calls put on the wire. -/
def sentBytes : List InnerCall → List UInt8
  | [] => []
  | .write taken :: rest => taken ++ sentBytes rest
  | .flush :: rest => sentBytes rest
  | .shutdown :: rest => sentBytes rest

@[simp] theorem sentBytes_append (first second : List InnerCall) :
    sentBytes (first ++ second) = sentBytes first ++ sentBytes second := by
  induction first with
  | nil => rfl
  | cons call rest ih => cases call <;> simp [sentBytes, ih]

/-- What the inner writer decides when polled: `ready limit` takes at most `limit`
bytes of a write, and completes a flush or a shutdown. -/
inductive WriteEvent where
  | pending
  | error
  | ready (limit : Nat)
  deriving DecidableEq, Repr

end Gday.Lib.AsyncStream
