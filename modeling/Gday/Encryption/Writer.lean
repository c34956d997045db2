import Gday.Encryption.StreamAead

/-! # EncryptedWriter

The functions of writer.rs.  A poll is driven by the inner writer's answers and
reports, besides its outcome, the calls the inner writer received, the chunks that
were encrypted during the poll with their ciphertexts, and the answers left over. -/
set_option autoImplicit false
namespace Gday.Encryption

open Gday.Lib.AsyncStream Gday.Lib.BigEndian

structure EncryptedWriter where
  encryptor : StreamLE31
  bytes : HelperBuf
  isFlushing : Bool
  deriving DecidableEq

/-- `EncryptedWriter::new`: the nonce it draws goes to the wire before anything else. -/
def EncryptedWriter.new (sharedKey : Key) (nonce : Nonce) : EncryptedWriter :=
  { encryptor := StreamLE31.new sharedKey nonce,
    bytes := HelperBuf.withCapacity maxChunkSize,
    isFlushing := true }

structure WritePoll (α : Type) where
  outcome : Outcome α
  writer : EncryptedWriter
  calls : List InnerCall
  sealed : List (List UInt8 × List UInt8)
  events : List WriteEvent

namespace WritePoll

/-- A poll that stops at once. -/
def stop {α : Type} (outcome : Outcome α) (writer : EncryptedWriter)
    (events : List WriteEvent) : WritePoll α := ⟨outcome, writer, [], [], events⟩

def after {α : Type} (call : InnerCall) (poll : WritePoll α) : WritePoll α :=
  { poll with calls := call :: poll.calls }

/-- `ready!(first)?` and then the rest of the poll. -/
def andThen {α β : Type} (first : WritePoll α)
    (rest : EncryptedWriter → List WriteEvent → WritePoll β) : WritePoll β :=
  match first.outcome with
  | .ready _ =>
      let second := rest first.writer first.events
      { second with calls := first.calls ++ second.calls, sealed := first.sealed ++ second.sealed }
  | .failed kind => { first with outcome := .failed kind }
  | .pending => { first with outcome := .pending }
  | .panicked panic => { first with outcome := .panicked panic }
  | .waiting => { first with outcome := .waiting }

end WritePoll

namespace EncryptedWriter

/-- What `poll_flush_local` does once everything is out. -/
def finishFlush (writer : EncryptedWriter) : EncryptedWriter :=
  { writer with
    bytes := { writer.bytes with buf := writer.bytes.buf.extendFromSlice [0, 0, 0, 0] },
    isFlushing := false }

/-- The `while` loop of `poll_flush_local`. -/
def flushLoop : List WriteEvent → EncryptedWriter → WritePoll Unit
  | [], writer =>
      match writer.bytes.data with
      | .error panic => .stop (.panicked panic) writer []
      | .ok data =>
          if data.isEmpty then .stop (.ready ()) writer.finishFlush []
          else .stop .waiting writer []
  | event :: events, writer =>
      match writer.bytes.data with
      | .error panic => .stop (.panicked panic) writer (event :: events)
      | .ok data =>
          if data.isEmpty then .stop (.ready ()) writer.finishFlush (event :: events)
          else
            match event with
            | .pending => .stop .pending writer events
            | .error => .stop (.failed .inner) writer events
            | .ready limit =>
                match writer.bytes.advanceCursor (min limit data.length) with
                | .error panic => .stop (.panicked panic) writer events
                | .ok bytes =>
                    (flushLoop events { writer with bytes := bytes }).after
                      (.write (data.take (min limit data.length)))

def pollFlushLocal (debug : Bool) (writer : EncryptedWriter) (events : List WriteEvent) :
    WritePoll Unit :=
  match debugAssert debug writer.isFlushing with
  | .error panic => .stop (.panicked panic) writer events
  | .ok () => flushLoop events writer

/-- Ready with the chunk and its ciphertext. -/
def startFlushing (aead : StreamAead) (writer : EncryptedWriter) :
    Except Panic (EncryptedWriter × Except ErrorKind (List UInt8 × List UInt8)) :=
  match writer.bytes.buf.splitOff 4 with
  | .error panic => .error panic
  | .ok (header, msg) =>
      match aead.encryptNextInPlace writer.encryptor msg.bytes with
      | none =>
          .ok ({ writer with bytes := { writer.bytes with buf := header } }, .error .invalidData)
      | some (sealed, encryptor) =>
          if sealed.length < 2 ^ 32 then
            if header.len = 4 then
              let buf := (header.replace (toBe sealed.length)).unsplit (msg.replace sealed)
              .ok ({ encryptor := encryptor, bytes := { writer.bytes with buf := buf },
                     isFlushing := true },
                .ok (msg.bytes, sealed))
            else .error .lengthMismatch
          else .error .unwrap

/-- `self.start_flushing()?` inside a poll that goes on with `rest`. -/
def flushThen {α : Type} (aead : StreamAead) (writer : EncryptedWriter)
    (events : List WriteEvent) (rest : EncryptedWriter → WritePoll α) : WritePoll α :=
  match startFlushing aead writer with
  | .error panic => .stop (.panicked panic) writer events
  | .ok (next, .error kind) => .stop (.failed kind) next events
  | .ok (next, .ok chunk) =>
      { rest next with sealed := chunk :: (rest next).sealed }

/-- `poll_write` after the frame in progress is out. -/
def takeBytes (aead : StreamAead) (debug : Bool) (buf : List UInt8) (writer : EncryptedWriter)
    (events : List WriteEvent) : WritePoll Nat :=
  match subUsize debug writer.bytes.spareCapacityLen ciphertextOverhead with
  | .error panic => .stop (.panicked panic) writer events
  | .ok room =>
      match slice buf 0 (min buf.length room) with
      | .error panic => .stop (.panicked panic) writer events
      | .ok taken =>
          let next := { writer with bytes := writer.bytes.append taken }
          if next.bytes.spareCapacityLen = ciphertextOverhead then
            flushThen aead next events fun final =>
              .stop (.ready (min buf.length room)) final events
          else .stop (.ready (min buf.length room)) next events

/-- Ready with the number of bytes taken. -/
def pollWrite (aead : StreamAead) (debug : Bool) (buf : List UInt8) (writer : EncryptedWriter)
    (events : List WriteEvent) : WritePoll Nat :=
  match debugAssert debug (decide (writer.bytes.buf.capacity = maxChunkSize)) with
  | .error panic => .stop (.panicked panic) writer events
  | .ok () =>
      if writer.isFlushing then
        (writer.pollFlushLocal debug events).andThen (takeBytes aead debug buf)
      else takeBytes aead debug buf writer events

/-- The inner writer's own `poll_flush` or `poll_shutdown`. -/
def pollInner (call : InnerCall) (writer : EncryptedWriter) : List WriteEvent → WritePoll Unit
  | [] => .stop .waiting writer []
  | .pending :: events => ⟨.pending, writer, [call], [], events⟩
  | .error :: events => ⟨.failed .inner, writer, [call], [], events⟩
  | .ready _ :: events => ⟨.ready (), writer, [call], [], events⟩

/-- `poll_flush` after `start_flushing`, where that was called. -/
def flushOut (debug : Bool) (writer : EncryptedWriter) (events : List WriteEvent) :
    WritePoll Unit :=
  if writer.isFlushing then
    (writer.pollFlushLocal debug events).andThen (pollInner .flush)
  else pollInner .flush writer events

def pollFlush (aead : StreamAead) (debug : Bool) (writer : EncryptedWriter)
    (events : List WriteEvent) : WritePoll Unit :=
  match writer.bytes.data with
  | .error panic => .stop (.panicked panic) writer events
  | .ok data =>
      if !writer.isFlushing && !data.isEmpty then
        flushThen aead writer events fun next => flushOut debug next events
      else flushOut debug writer events

def pollShutdown (aead : StreamAead) (debug : Bool) (writer : EncryptedWriter)
    (events : List WriteEvent) : WritePoll Unit :=
  (writer.pollFlush aead debug events).andThen (pollInner .shutdown)

end EncryptedWriter
end Gday.Encryption
