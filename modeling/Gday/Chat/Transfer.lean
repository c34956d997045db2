import Gday.Chat.FileTransfer
import Gday.Chat.Protocol

/-! # Sending files, and receiving them from a stream

`send_files` and `creator_run`, and `receive_files` over a stream in segments.  There is
nothing between two files: each side knows from its own list where one ends.  A local file that
opens can be read to its end, and the last `writer.flush()` works: neither failure is modelled. -/
set_option autoImplicit false
namespace Gday.Chat

open Gday.Lib.AsyncStream Gday.Lib.LexicalPath Gday.Lib.SegmentedStream
open Gday.Chat.Protocol (Sink)

structure LocalFileMeta where
  localPath : Path
  publicPath : Path
  size : Nat
  deriving DecidableEq, Repr

/-- What the peer is told of a file. -/
def LocalFileMeta.public_ (file : LocalFileMeta) : FileMeta := ⟨file.publicPath, file.size⟩

/-- What can be opened, and what is read from it. -/
abbrev LocalDisk := Path → Option (List UInt8)

/-- What a file holds when it is sent. -/
def holds (disk : LocalDisk) (file : LocalFileMeta) : List UInt8 :=
  (disk file.localPath).getD []

/-! ## Sending -/

def sendLoop (disk : LocalDisk) : List LocalFileMeta → Sink → Outcome Unit × Sink
  | [], sink => (.ready (), sink)
  | file :: files, sink =>
      match disk file.localPath with
      | none => (.failed .inner, sink)
      | some content =>
          match sink.writeAll content with
          | (.ok (), sink) => sendLoop disk files sink
          | (.error _, sink) => (.failed .inner, sink)

def sendFiles (debug : Bool) (disk : LocalDisk) (files : List LocalFileMeta) (sink : Sink) :
    Outcome Unit × Sink :=
  match sumSizes debug (files.map LocalFileMeta.public_) 0 with
  | .error panic => (.panicked panic, sink)
  | .ok _ => sendLoop disk files sink

/-- The files that `creator_run` sends: those whose entry in `chosen` is true. -/
def filesToSend (files : List LocalFileMeta) (chosen : List Bool) : List LocalFileMeta :=
  ((files.zip chosen).filter fun pair => pair.2).map Prod.fst

/-- The first message of `creator_run`. -/
def offer (files : Option (List LocalFileMeta)) : Message :=
  .fileOffer (files.map fun files => files.map LocalFileMeta.public_)

/-- `creator_run` up to the chat, once it has sent its offer, on the reply: none if it could
not be read. -/
def creatorRun (debug : Bool) (disk : LocalDisk) (files : Option (List LocalFileMeta))
    (reply : Option Message) (sink : Sink) : Outcome Unit × Sink :=
  match files with
  | none => (.ready (), sink)
  | some files =>
      match reply with
      | none => (.failed .inner, sink)
      | some (.fileAccept chosen) => sendFiles debug disk (filesToSend files chosen) sink
      | some (.fileOffer _) => (.failed .invalidData, sink)

/-! ## Receiving from segments -/

def fillFileFrom (fileSystem : FileSystem) (meta_ : FileMeta) (stream : Segments)
    (done : List Effect) : Outcome Unit × Segments × List Effect :=
  let created := done ++ [.create (destination meta_)]
  if fileSystem.create done (destination meta_) then
    let (bytes, rest) := takeUpTo meta_.size stream
    let written := created ++ [.write (destination meta_) bytes]
    if fileSystem.write created (destination meta_) then (.ready (), rest, written)
    else (.failed .inner, rest, written)
  else (.failed .inner, stream, created)

def receiveFileFrom (fileSystem : FileSystem) (meta_ : FileMeta) (stream : Segments)
    (done : List Effect) : Outcome Unit × Segments × List Effect :=
  match createDirAll fileSystem (directory meta_).reverse done with
  | (false, later) => (.failed .inner, stream, later)
  | (true, later) => fillFileFrom fileSystem meta_ stream later

def receiveLoopFrom (fileSystem : FileSystem) :
    List FileMeta → Segments → List Effect → Outcome Unit × Segments × List Effect
  | [], stream, done => (.ready (), stream, done)
  | meta_ :: files, stream, done =>
      match receiveFileFrom fileSystem meta_ stream done with
      | (.ready (), rest, later) => receiveLoopFrom fileSystem files rest later
      | stopped => stopped

def receiveFilesFrom (debug : Bool) (fileSystem : FileSystem) (files : List FileMeta)
    (stream : Segments) : Outcome Unit × Segments × List Effect :=
  match sumSizes debug files 0 with
  | .error panic => (.panicked panic, stream, [])
  | .ok _ => receiveLoopFrom fileSystem files stream []

/-! ## However the stream is cut -/

/-- The stream as the bytes that it delivers before it ends. -/
def Supply.ofSegments (stream : Segments) : Supply := ⟨stream.flatten, .endOfStream⟩

theorem copyBuf_takeUpTo (size : Nat) (stream : Segments) :
    copyBuf size (.ofSegments stream) =
      ((takeUpTo size stream).1, .ready (), .ofSegments (takeUpTo size stream).2) := by
  obtain ⟨bytes, behind⟩ := takeUpTo_flatten size stream
  unfold copyBuf Supply.ofSegments
  simp only [bytes, behind, ite_self]

theorem fillFileFrom_supply (fileSystem : FileSystem) (meta_ : FileMeta) (stream : Segments)
    (done : List Effect) :
    fillFile fileSystem meta_ (.ofSegments stream) done =
      ((fillFileFrom fileSystem meta_ stream done).1,
        .ofSegments (fillFileFrom fileSystem meta_ stream done).2.1,
        (fillFileFrom fileSystem meta_ stream done).2.2) := by
  unfold fillFile fillFileFrom
  rw [copyBuf_takeUpTo]
  by_cases opens : fileSystem.create done (destination meta_) = true
  · simp only [if_pos opens]
    split <;> rfl
  · simp only [if_neg opens]

theorem receiveFileFrom_supply (fileSystem : FileSystem) (meta_ : FileMeta) (stream : Segments)
    (done : List Effect) :
    receiveFile fileSystem meta_ (.ofSegments stream) done =
      ((receiveFileFrom fileSystem meta_ stream done).1,
        .ofSegments (receiveFileFrom fileSystem meta_ stream done).2.1,
        (receiveFileFrom fileSystem meta_ stream done).2.2) := by
  unfold receiveFile receiveFileFrom
  cases createDirAll fileSystem (directory meta_).reverse done with
  | mk made later =>
      cases made with
      | false => rfl
      | true => exact fillFileFrom_supply fileSystem meta_ stream later

theorem receiveLoopFrom_supply (fileSystem : FileSystem) (files : List FileMeta)
    (stream : Segments) (done : List Effect) :
    receiveLoop fileSystem files (.ofSegments stream) done =
      ((receiveLoopFrom fileSystem files stream done).1,
        .ofSegments (receiveLoopFrom fileSystem files stream done).2.1,
        (receiveLoopFrom fileSystem files stream done).2.2) := by
  induction files generalizing stream done with
  | nil => rfl
  | cons meta_ files ih =>
      unfold receiveLoop receiveLoopFrom
      rw [receiveFileFrom_supply]
      cases receiveFileFrom fileSystem meta_ stream done with
      | mk outcome rest =>
          cases outcome with
          | ready value => exact ih rest.1 rest.2
          | _ => rfl

end Gday.Chat
