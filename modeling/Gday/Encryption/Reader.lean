import Gday.Encryption.StreamAead

/-! # EncryptedReader

The functions of reader.rs over a `ByteStream` as the inner reader.  `decryptChunks`
is the `while let` loop of `decrypt_all_full_chunks`; its count bounds the rounds,
and `decryptChunks_enough` shows that the buffered bytes are always enough of them.
`readLoop` is the `while` loop of `read_if_necessary`: one `ReadEvent` a round. -/
set_option autoImplicit false
namespace Gday.Encryption

open Gday.Lib.AsyncStream Gday.Lib.BigEndian Gday.Lib.Framing

def peekCipherChunk (buf : HelperBuf) : Except Panic (Option (List UInt8)) :=
  match buf.data with
  | .error panic => .error panic
  | .ok data =>
      match getRange data 0 4 with
      | some len => .ok (getRange data 4 (4 + ofBe len))
      | none => .ok none

structure EncryptedReader where
  decryptor : StreamLE31
  cleartext : HelperBuf
  ciphertext : HelperBuf
  deriving DecidableEq

/-- The reader that `new` builds once the nonce has been read. -/
def EncryptedReader.withNonce (sharedKey : Key) (nonce : Nonce) : EncryptedReader :=
  { decryptor := StreamLE31.new sharedKey nonce,
    cleartext := HelperBuf.withCapacity maxChunkSize,
    ciphertext := HelperBuf.withCapacity (maxChunkSize * 2) }

/-- `EncryptedReader::new` reads eight bytes of nonce off the inner stream. -/
def EncryptedReader.new (inner : ByteStream) (sharedKey : Key) :
    Except ErrorKind (EncryptedReader × ByteStream) :=
  if 8 ≤ inner.bytes.length then
    .ok (EncryptedReader.withNonce sharedKey (inner.bytes.take 8),
      { inner with bytes := inner.bytes.drop 8 })
  else .error .unexpectedEof

namespace EncryptedReader

/-- `inner_read`: what the inner reader puts in goes behind the ciphertext. -/
def innerRead (reader : EncryptedReader) (inner : ByteStream) (event : ReadEvent) :
    ReadAnswer × EncryptedReader × ByteStream :=
  match inner.pollRead reader.ciphertext.spareCapacityLen event with
  | (.filled bytes, next) =>
      (.filled bytes, { reader with ciphertext := reader.ciphertext.append bytes }, next)
  | (answer, next) => (answer, reader, next)

/-- How the `while let` loop is left: no complete chunk, no room for the next one, or
a chunk that does not decrypt. -/
inductive ChunkEnd where
  | drained
  | noRoom
  | invalid
  deriving DecidableEq, Repr

variable (aead : StreamAead)

/-- One round of the loop, on the chunk `msg` that was peeked: `none` to go on. -/
def decryptChunk (reader : EncryptedReader) (msg : List UInt8) :
    Except Panic (EncryptedReader × Option ChunkEnd) :=
  if reader.cleartext.spareCapacityLen < msg.length then .ok (reader, some .noRoom)
  else
    match reader.cleartext.buf.splitOff reader.cleartext.buf.len with
    | .error panic => .error panic
    | .ok (kept, decryptionSpace) =>
        match reader.ciphertext.advanceCursor (msg.length + 4) with
        | .error panic => .error panic
        | .ok ciphertext =>
            match aead.decryptNextInPlace reader.decryptor msg with
            | none =>
                .ok ({ reader with
                    cleartext := { reader.cleartext with buf := kept }, ciphertext := ciphertext },
                  some .invalid)
            | some (plain, decryptor) =>
                let space := (decryptionSpace.extendFromSlice msg).replace plain
                .ok ({ decryptor := decryptor,
                       cleartext := { reader.cleartext with buf := kept.unsplit space },
                       ciphertext := ciphertext },
                  none)

def decryptChunks : Nat → EncryptedReader → Except Panic (EncryptedReader × ChunkEnd)
  | 0, reader => .ok (reader, .drained)
  | rounds + 1, reader =>
      match peekCipherChunk reader.ciphertext with
      | .error panic => .error panic
      | .ok none => .ok (reader, .drained)
      | .ok (some msg) =>
          match decryptChunk aead reader msg with
          | .error panic => .error panic
          | .ok (next, some chunkEnd) => .ok (next, chunkEnd)
          | .ok (next, none) => decryptChunks rounds next

def decryptAllFullChunks (reader : EncryptedReader) :
    Except Panic (EncryptedReader × Except ErrorKind Unit) :=
  match decryptChunks aead reader.ciphertext.buf.len reader with
  | .error panic => .error panic
  | .ok (next, .noRoom) => .ok (next, .ok ())
  | .ok (next, .invalid) => .ok (next, .error .invalidData)
  | .ok (next, .drained) =>
      if next.ciphertext.spareCapacityLen = 0 then
        match next.ciphertext.wrap with
        | .error panic => .error panic
        | .ok ciphertext => .ok ({ next with ciphertext := ciphertext }, .ok ())
      else .ok (next, .ok ())

/-- The loop condition of `read_if_necessary`. -/
def wantsMore (bytesAmount : Nat) (reader : EncryptedReader) : Except Panic Bool :=
  match reader.cleartext.data with
  | .error panic => .error panic
  | .ok data =>
      .ok (decide (data.length < bytesAmount) && decide (reader.ciphertext.spareCapacityLen ≠ 0))

/-- The assertion and the result after the loop. -/
def finishRead (debug : Bool) (reader : EncryptedReader) : Outcome Bool :=
  match reader.cleartext.data with
  | .error panic => .panicked panic
  | .ok data =>
      match debugAssert debug (!data.isEmpty) with
      | .error panic => .panicked panic
      | .ok () => .ready false

/-- The body of the loop: `none` to go on with the next round. -/
def readStep (debug : Bool) (event : ReadEvent) (reader : EncryptedReader) (inner : ByteStream) :
    Option (Outcome Bool) × EncryptedReader × ByteStream :=
  match reader.innerRead inner event with
  | (.error, next, rest) => (some (.failed .inner), next, rest)
  | (.pending, next, rest) =>
      match next.cleartext.data with
      | .error panic => (some (.panicked panic), next, rest)
      | .ok data =>
          if data.isEmpty then (some .pending, next, rest)
          else (some (next.finishRead debug), next, rest)
  | (.filled _, next, rest) =>
      match next.ciphertext.data, next.cleartext.data with
      | .error panic, _ => (some (.panicked panic), next, rest)
      | .ok _, .error panic => (some (.panicked panic), next, rest)
      | .ok sealed, .ok clear =>
          if sealed.isEmpty && clear.isEmpty then (some (.ready true), next, rest)
          else
            match decryptAllFullChunks aead next with
            | .error panic => (some (.panicked panic), next, rest)
            | .ok (final, .error kind) => (some (.failed kind), final, rest)
            | .ok (final, .ok ()) => (none, final, rest)

def readLoop (debug : Bool) (bytesAmount : Nat) :
    List ReadEvent → EncryptedReader → ByteStream → Outcome Bool × EncryptedReader × ByteStream
  | [], reader, inner =>
      match reader.wantsMore bytesAmount with
      | .error panic => (.panicked panic, reader, inner)
      | .ok false => (reader.finishRead debug, reader, inner)
      | .ok true => (.waiting, reader, inner)
  | event :: events, reader, inner =>
      match reader.wantsMore bytesAmount with
      | .error panic => (.panicked panic, reader, inner)
      | .ok false => (reader.finishRead debug, reader, inner)
      | .ok true =>
          match readStep aead debug event reader inner with
          | (some outcome, next, rest) => (outcome, next, rest)
          | (none, next, rest) => readLoop debug bytesAmount events next rest

/-- `bytes_amount` of `read_if_necessary`. -/
def bytesAmount (reader : EncryptedReader) : Option Nat → Nat
  | none => reader.cleartext.buf.capacity
  | some wanted => min reader.cleartext.buf.capacity wanted

/-- Ready with `true` at end of stream. -/
def readIfNecessary (debug : Bool) (wanted : Option Nat) (events : List ReadEvent)
    (reader : EncryptedReader) (inner : ByteStream) :
    Outcome Bool × EncryptedReader × ByteStream :=
  match debugAssert debug (decide (reader.cleartext.buf.capacity = maxChunkSize)),
      debugAssert debug (decide (reader.ciphertext.buf.capacity = 2 * maxChunkSize)) with
  | .error panic, _ => (.panicked panic, reader, inner)
  | .ok (), .error panic => (.panicked panic, reader, inner)
  | .ok (), .ok () =>
      match decryptAllFullChunks aead reader with
      | .error panic => (.panicked panic, reader, inner)
      | .ok (next, .error kind) => (.failed kind, next, inner)
      | .ok (next, .ok ()) => readLoop aead debug (reader.bytesAmount wanted) events next inner

/-- `poll_read` with room for `remaining` bytes: ready with the bytes put. -/
def pollRead (debug : Bool) (remaining : Nat) (events : List ReadEvent)
    (reader : EncryptedReader) (inner : ByteStream) :
    Outcome (List UInt8) × EncryptedReader × ByteStream :=
  match readIfNecessary aead debug (some remaining) events reader inner with
  | (.ready true, next, rest) => (.ready [], next, rest)
  | (.ready false, next, rest) =>
      match next.cleartext.data with
      | .error panic => (.panicked panic, next, rest)
      | .ok chunk =>
          match slice chunk 0 (min remaining chunk.length),
              next.cleartext.advanceCursor (min remaining chunk.length) with
          | .error panic, _ => (.panicked panic, next, rest)
          | .ok _, .error panic => (.panicked panic, next, rest)
          | .ok bytes, .ok cleartext => (.ready bytes, { next with cleartext := cleartext }, rest)
  | (.failed kind, next, rest) => (.failed kind, next, rest)
  | (.pending, next, rest) => (.pending, next, rest)
  | (.panicked panic, next, rest) => (.panicked panic, next, rest)
  | (.waiting, next, rest) => (.waiting, next, rest)

/-- `poll_fill_buf`: ready with the slice it returns. -/
def pollFillBuf (debug : Bool) (events : List ReadEvent)
    (reader : EncryptedReader) (inner : ByteStream) :
    Outcome (List UInt8) × EncryptedReader × ByteStream :=
  match readIfNecessary aead debug none events reader inner with
  | (.ready true, next, rest) => (.ready [], next, rest)
  | (.ready false, next, rest) =>
      match next.cleartext.data with
      | .error panic => (.panicked panic, next, rest)
      | .ok data => (.ready data, next, rest)
  | (.failed kind, next, rest) => (.failed kind, next, rest)
  | (.pending, next, rest) => (.pending, next, rest)
  | (.panicked panic, next, rest) => (.panicked panic, next, rest)
  | (.waiting, next, rest) => (.waiting, next, rest)

def consume (reader : EncryptedReader) (amt : Nat) : Except Panic EncryptedReader :=
  match reader.cleartext.advanceCursor amt with
  | .error panic => .error panic
  | .ok cleartext => .ok { reader with cleartext := cleartext }

end EncryptedReader
end Gday.Encryption
