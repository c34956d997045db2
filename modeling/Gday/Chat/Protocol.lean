import Gday.Lib.BigEndian
import Gday.Lib.Postcard
import Gday.Lib.SegmentedStream

/-! # The chat protocol

`serialize_into` and `deserialize_from`: a message behind four bytes for its length.  The
buffer can be longer than the message, and holds whatever an earlier one left there; a
message ends where its encoding does. -/
set_option autoImplicit false
namespace Gday.Chat.Protocol

open Gday.Lib.BigEndian Gday.Lib.Postcard Gday.Lib.SegmentedStream

/-- A path is any bytes. -/
def PathBuf : Type := {bytes : List UInt8 // bytes.length < 2 ^ 64}

structure FileMeta where
  path : PathBuf
  size : UInt64

inductive Message where
  | fileOffer (files : Option (Vec FileMeta))
  | fileAccept (chosen : Vec Bool)

/-- The errors of the crate that these functions return. -/
inductive Error where
  | postcard (error : Lib.Postcard.Error)
  | io
  | messageTooLong
  deriving DecidableEq, Repr

/-! ## What is encoded -/

/-- A path is encoded as a string, where it is one. -/
def PathBuf.toStr (path : PathBuf) : Option Str :=
  if valid : isUtf8 path.val then some ⟨path.val, path.property, valid⟩ else none

def PathBuf.ofStr (text : Str) : PathBuf := ⟨text.val, text.property.1⟩

def FileMeta.wire (meta_ : FileMeta) : Except Lib.Postcard.Error (Str × UInt64) :=
  match meta_.path.toStr with
  | none => .error .serdeSerCustom
  | some text => .ok (text, meta_.size)

def FileMeta.ofWire (wire : Str × UInt64) : FileMeta := ⟨.ofStr wire.1, wire.2⟩

/-- The files one after the other, up to the first that cannot be encoded. -/
def wireFiles : (files : List FileMeta) →
    Except Lib.Postcard.Error {wires : List (Str × UInt64) // wires.length = files.length}
  | [] => .ok ⟨[], rfl⟩
  | meta_ :: files => do
      let wire ← meta_.wire
      let wires ← wireFiles files
      return ⟨wire :: wires.val, congrArg (· + 1) wires.property⟩

def payload : Fin 2 → Type
  | 0 => Option (Vec (Str × UInt64))
  | 1 => Vec Bool

def payloadCodec : ∀ variant, Codec (payload variant)
  | 0 => option (vec (pair str u64))
  | 1 => vec bool

theorem two_variants : 2 ≤ 128 := Nat.le_add_right 2 126

def wireCodec : Codec (Sigma payload) := enumeration two_variants payloadCodec

def Message.wire : Message → Except Lib.Postcard.Error (Sigma payload)
  | .fileOffer none => .ok ⟨⟨0, Nat.two_pos⟩, none⟩
  | .fileOffer (some files) => do
      let wires ← wireFiles files.val
      return ⟨⟨0, Nat.two_pos⟩, some ⟨wires.val, wires.property.symm ▸ files.property⟩⟩
  | .fileAccept chosen => .ok ⟨⟨1, Nat.one_lt_two⟩, chosen⟩

def Message.ofWire : Sigma payload → Message
  | ⟨⟨0, _⟩, files⟩ => .fileOffer (files.map fun wires =>
      ⟨wires.val.map FileMeta.ofWire, (List.length_map FileMeta.ofWire).symm ▸ wires.property⟩)
  | ⟨⟨1, _⟩, chosen⟩ => .fileAccept chosen

/-- `to_stdvec`. -/
def Message.toStdvec (message : Message) : Except Lib.Postcard.Error (List UInt8) :=
  message.wire.map wireCodec.write

/-- `from_bytes`. -/
def Message.fromBytes (bytes : List UInt8) : Except Lib.Postcard.Error Message :=
  (Lib.Postcard.fromBytes wireCodec bytes).map Message.ofWire

/-! ## The two functions -/

/-- A writer with what it was sent; with `room`, it fails once it has taken so much more. -/
structure Sink where
  sent : List UInt8
  room : Option Nat
  deriving DecidableEq, Repr

/-- `write_all`. -/
def Sink.writeAll (sink : Sink) (bytes : List UInt8) : Except Error Unit × Sink :=
  match sink.room with
  | none => (.ok (), { sink with sent := sink.sent ++ bytes })
  | some room =>
      if bytes.length ≤ room then (.ok (), ⟨sink.sent ++ bytes, some (room - bytes.length)⟩)
      else (.error .io, ⟨sink.sent ++ bytes.take room, some 0⟩)

def serializeInto (sink : Sink) (message : Message) : Except Error Unit × Sink :=
  match message.toStdvec with
  | .error error => (.error (.postcard error), sink)
  | .ok bytes =>
      if bytes.length < 2 ^ 32 then sink.writeAll (toBe bytes.length ++ bytes)
      else (.error .messageTooLong, sink)

/-- `resize`, where the buffer is too short. -/
def grow (tmpBuf : List UInt8) (length : Nat) : List UInt8 :=
  if tmpBuf.length < length then tmpBuf ++ List.replicate (length - tmpBuf.length) 0 else tmpBuf

/-- The message, what is left of the stream, and the buffer. -/
def deserializeFrom (stream : Segments) (tmpBuf : List UInt8) :
    Except Error Message × Segments × List UInt8 :=
  match readExact 4 stream with
  | (.error _, stream) => (.error .io, stream, tmpBuf)
  | (.ok header, stream) =>
      let length := ofBe header
      let tmpBuf := grow tmpBuf length
      match readExact length stream with
      | (.error bytes, stream) => (.error .io, stream, bytes ++ tmpBuf.drop bytes.length)
      | (.ok bytes, stream) =>
          let tmpBuf := bytes ++ tmpBuf.drop length
          match Message.fromBytes tmpBuf with
          | .error error => (.error (.postcard error), stream, tmpBuf)
          | .ok message => (.ok message, stream, tmpBuf)

end Gday.Chat.Protocol
