import Gday.HolePunch.Messages
import Gday.Lib.BigEndian

/-! # The messenger

`Messenger` over the bytes of its stream.  The buffer is scratch space, so that only its
length matters: a message is encoded behind four bytes for its length and decoded from
the start. -/
set_option autoImplicit false
namespace Gday.HolePunch

open Gday.Lib.Postcard Gday.Lib.BigEndian

inductive SerializationError where
  | postcard (error : Error)
  | io
  | tmpBufTooSmall
  | messageTooLong
  deriving DecidableEq, Repr

structure Messenger where
  bufLen : Nat
  deriving DecidableEq, Repr

namespace Messenger

def withCapacity (capacity : Nat) : Messenger := ⟨capacity⟩

/-- The messenger that `ConnectionHandler::start` makes. -/
def ofServer : Messenger := withCapacity 68

/-- The messenger that `configure_stream` makes. -/
def ofClient : Messenger := withCapacity 68

section Values

variable {Value : Type}

/-- The bytes that are written to the stream. -/
def writeMsg (messenger : Messenger) (codec : Codec Value) (message : Value) :
    Except SerializationError (List UInt8) :=
  match toSlice codec (messenger.bufLen - 4) message with
  | .error error => .error (.postcard error)
  | .ok bytes =>
      if bytes.length < 2 ^ 32 then .ok (toBe bytes.length ++ bytes) else .error .messageTooLong

/-- What is read from a stream that delivers these bytes, and what is left of them. -/
def nextMsg (messenger : Messenger) (codec : Codec Value) (stream : List UInt8) :
    Except SerializationError Value × List UInt8 :=
  if stream.length < 4 then (.error .io, [])
  else
    let length := ofBe (stream.take 4)
    let rest := stream.drop 4
    if messenger.bufLen < length then (.error .tmpBufTooSmall, rest)
    else if rest.length < length then (.error .io, [])
    else
      match fromBytes codec (rest.take length) with
      | .error error => (.error (.postcard error), rest.drop length)
      | .ok message => (.ok message, rest.drop length)

/-- Written on one side and read on the other, whatever follows. -/
def Carries (sender receiver : Messenger) (codec : Codec Value) (message received : Value) :
    Prop :=
  ∃ bytes, sender.writeMsg codec message = .ok bytes ∧
    ∀ rest, receiver.nextMsg codec (bytes ++ rest) = (.ok received, rest)

theorem writeMsg_fits (messenger : Messenger) (codec : Codec Value) (message : Value)
    (fits : (codec.write message).length ≤ messenger.bufLen - 4)
    (small : messenger.bufLen < 2 ^ 32) :
    messenger.writeMsg codec message =
      .ok (toBe (codec.write message).length ++ codec.write message) := by
  rw [writeMsg, toSlice, if_pos fits]
  exact if_pos (by omega)

theorem writeMsg_full (messenger : Messenger) (codec : Codec Value) (message : Value)
    (full : messenger.bufLen - 4 < (codec.write message).length) :
    messenger.writeMsg codec message = .error (.postcard .serializeBufferFull) := by
  rw [writeMsg, toSlice, if_neg (by omega)]

theorem writeMsg_short (messenger : Messenger) (codec : Codec Value) (message : Value)
    (short : (codec.write message).length < 2 ^ 32) :
    messenger.writeMsg codec message =
      if (codec.write message).length ≤ messenger.bufLen - 4 then
        .ok (toBe (codec.write message).length ++ codec.write message)
      else .error (.postcard .serializeBufferFull) := by
  by_cases fits : (codec.write message).length ≤ messenger.bufLen - 4
  · rw [if_pos fits, writeMsg, toSlice, if_pos fits]
    exact if_pos short
  · rw [if_neg fits]
    exact writeMsg_full messenger codec message (by omega)

/-- Any frame that fits is taken off the stream, whatever its bytes are. -/
theorem nextMsg_body (messenger : Messenger) (codec : Codec Value) (body rest : List UInt8)
    (fits : body.length ≤ messenger.bufLen) (small : body.length < 2 ^ 32) :
    messenger.nextMsg codec (toBe body.length ++ body ++ rest) =
      match fromBytes codec body with
      | .error error => (.error (.postcard error), rest)
      | .ok message => (.ok message, rest) := by
  have header : (toBe body.length ++ body ++ rest).take 4 = toBe body.length := by
    rw [List.append_assoc]
    exact List.take_left' (toBe_length _)
  have behind : (toBe body.length ++ body ++ rest).drop 4 = body ++ rest := by
    rw [List.append_assoc]
    exact List.drop_left' (toBe_length _)
  have long : ¬ (toBe body.length ++ body ++ rest).length < 4 := by
    rw [List.length_append, List.length_append, toBe_length]
    omega
  have number : ofBe (toBe body.length) = body.length := ofBe_toBe _ small
  have enough : ¬ (body ++ rest).length < body.length := by
    rw [List.length_append]
    omega
  simp only [nextMsg, if_neg long, header, behind, number, if_neg (Nat.not_lt.mpr fits),
    if_neg enough, List.take_left, List.drop_left]

theorem nextMsg_frame (messenger : Messenger) (codec : Codec Value) (message : Value)
    (rest : List UInt8) (fits : (codec.write message).length ≤ messenger.bufLen)
    (small : messenger.bufLen < 2 ^ 32) :
    messenger.nextMsg codec (toBe (codec.write message).length ++ codec.write message ++ rest) =
      (.ok (codec.kept message), rest) := by
  rw [nextMsg_body messenger codec _ rest fits (by omega), fromBytes_write]

/-- Two messengers carry a message exactly where it fits behind the length. -/
theorem carries_iff (sender receiver : Messenger) (codec : Codec Value) (message : Value)
    (sameSize : sender.bufLen ≤ receiver.bufLen) (small : receiver.bufLen < 2 ^ 32) :
    sender.Carries receiver codec message (codec.kept message) ↔
      (codec.write message).length ≤ sender.bufLen - 4 := by
  constructor
  · rintro ⟨bytes, written, _⟩
    by_contra full
    rw [writeMsg_full sender codec message (by omega)] at written
    exact absurd written nofun
  · intro fits
    refine ⟨_, writeMsg_fits sender codec message fits (by omega), fun rest => ?_⟩
    exact nextMsg_frame receiver codec message rest (by omega) small

end Values

end Messenger

end Gday.HolePunch
