import Gday.Chat.AnnouncedSizes
import Gday.Chat.DownloadFolder
import Gday.Chat.OwnFrame
import Gday.Chat.WholeSession

/-! # Sessions that are cut off

The streams between the two sides may end anywhere, and may even give a side its own bytes
back.  What reaches the file system are still only beginnings of the files that were
offered and accepted, each at its own path.  Where no side is given its own bytes, the chat
prints nothing but the lines of the other side, in their order. -/
set_option autoImplicit false
namespace Gday.Chat

open Gday.Lib.AsyncStream Gday.Lib.BigEndian Gday.Lib.Duplex Gday.Lib.Framing
open Gday.Lib.LexicalPath Gday.Lib.Postcard Gday.Lib.Program Gday.Lib.SegmentedStream
open Gday.Lib.Transition
open Gday.Chat.Protocol (Sink deserializeFrom)

/-! ## Files of which only the beginning arrives -/

section Belongs

variable {disk : LocalDisk} {all : List LocalFileMeta} {done : List Effect}

end Belongs

/-! ## Messages of which only the beginning arrives -/

theorem deserializeFrom_start {message : Protocol.Message} {bytes trailing : List UInt8}
    (encoded : message.toStdvec = .ok bytes) (short : bytes.length < 2 ^ 32) {stream : Segments}
    (start : stream.flatten <+: toBe bytes.length ++ bytes ++ trailing) :
    (∃ error, (deserializeFrom stream []).1 = .error error) ∨
      ∃ rest buffer, deserializeFrom stream [] = (.ok message, rest, buffer) ∧
        rest.flatten <+: trailing := by
  rcases Nat.lt_or_ge stream.flatten.length (frame bytes).length with cut | whole
  · left
    refine ⟨.io, Protocol.deserializeFrom_hidden stream [] ?_⟩
    cases shown : peekFrame stream.flatten with
    | none => rfl
    | some body =>
        exfalso
        obtain ⟨unseen, split⟩ := start
        obtain ⟨_, more, seen, _⟩ :=
          peekFrame_of_split stream.flatten unseen bytes body trailing short split shown
        rw [seen, List.length_append] at cut
        omega
  · right
    have front : frame bytes <+: stream.flatten :=
      List.prefix_of_prefix_length_le (List.prefix_append _ trailing) start whole
    obtain ⟨arrived, split⟩ := front
    obtain ⟨rest, buffer, decoded, left_⟩ := Protocol.deserializeFrom_frame message bytes arrived []
      encoded short stream split.symm
    refine ⟨rest, buffer, decoded, ?_⟩
    rw [left_]
    rw [← split] at start
    exact (List.prefix_append_right_inj _).mp start

/-! ## Chats -/

theorem createDirAll_prefix (fileSystem : FileSystem) (reversed : List Component)
    (done : List Effect) : done <+: (createDirAll fileSystem reversed done).2 :=
  createDirAll_rule fileSystem (done <+: ·) reversed done (List.prefix_refl _)
    fun _ _ _ _ start => start.trans (List.prefix_append _ _)

theorem receiveFile_prefix (fileSystem : FileSystem) (meta_ : FileMeta) (supply : Supply)
    (done : List Effect) : done <+: (receiveFile fileSystem meta_ supply done).2.2 := by
  have directories := createDirAll_prefix fileSystem (directory meta_).reverse done
  unfold receiveFile
  generalize createDirAll fileSystem (directory meta_).reverse done = made at directories
  obtain ⟨fine, later⟩ := made
  cases fine with
  | false => exact directories
  | true =>
      have created := directories.trans (List.prefix_append later [.create (destination meta_)])
      simp only [fillFile]
      split
      · split
        · exact created.trans (List.prefix_append _ _)
        · exact created.trans (List.prefix_append _ _)
      · exact created

theorem receiveLoop_prefix (fileSystem : FileSystem) (files : List FileMeta) (supply : Supply)
    (done : List Effect) : done <+: (receiveLoop fileSystem files supply done).2.2 := by
  induction files generalizing supply done with
  | nil => exact List.prefix_refl _
  | cons meta_ files ih =>
      have first := receiveFile_prefix fileSystem meta_ supply done
      rw [receiveLoop]
      generalize receiveFile fileSystem meta_ supply done = received at first
      obtain ⟨outcome, rest, later⟩ := received
      cases outcome with
      | ready value => exact first.trans (ih rest later)
      | failed kind => exact first
      | pending => exact first
      | panicked panic => exact first
      | waiting => exact first

theorem receiveLoop_first (fileSystem : FileSystem) (meta_ : FileMeta) (files : List FileMeta)
    (supply : Supply) (done : List Effect) :
    (receiveFile fileSystem meta_ supply done).2.2 <+:
      (receiveLoop fileSystem (meta_ :: files) supply done).2.2 := by
  rw [receiveLoop]
  generalize receiveFile fileSystem meta_ supply done = received
  obtain ⟨outcome, rest, later⟩ := received
  cases outcome with
  | ready value => exact receiveLoop_prefix fileSystem files rest later
  | failed kind => exact List.prefix_refl _
  | pending => exact List.prefix_refl _
  | panicked panic => exact List.prefix_refl _
  | waiting => exact List.prefix_refl _

/-- The ending of the stream decides whether one goes on, and not what is done with the bytes
that came before. -/
theorem receiveFile_ending (fileSystem : FileSystem) (meta_ : FileMeta) (bytes : List UInt8)
    (ending : Ending) (done : List Effect) :
    let stopped := receiveFile fileSystem meta_ ⟨bytes, ending⟩ done
    let ended := receiveFile fileSystem meta_ ⟨bytes, .endOfStream⟩ done
    stopped.2.2 = ended.2.2 ∧ (stopped.1 = .ready () →
      ended.1 = .ready () ∧ stopped.2.1 = ⟨ended.2.1.bytes, ending⟩ ∧
        ended.2.1.ending = .endOfStream) := by
  unfold receiveFile
  generalize createDirAll fileSystem (directory meta_).reverse done = made
  obtain ⟨fine, later⟩ := made
  cases fine with
  | false => exact ⟨rfl, fun ready => by cases ready⟩
  | true =>
      simp only [fillFile, copyBuf, ite_self]
      split
      · split
        · exact ⟨rfl, fun _ => ⟨rfl, rfl, rfl⟩⟩
        · exact ⟨rfl, fun ready => by cases ready⟩
      · exact ⟨rfl, fun ready => by cases ready⟩

/-- Who stops because the stream fails or falls silent has done a beginning of what is done where
the stream ends there. -/
theorem receiveLoop_stopped (fileSystem : FileSystem) (files : List FileMeta)
    (bytes : List UInt8) (ending : Ending) (done : List Effect) :
    (receiveLoop fileSystem files ⟨bytes, ending⟩ done).2.2 <+:
      (receiveLoop fileSystem files ⟨bytes, .endOfStream⟩ done).2.2 := by
  induction files generalizing bytes done with
  | nil => exact List.prefix_refl _
  | cons meta_ files ih =>
      obtain ⟨same, goesOn⟩ := receiveFile_ending fileSystem meta_ bytes ending done
      have onward := receiveLoop_first fileSystem meta_ files ⟨bytes, .endOfStream⟩ done
      rw [← same] at onward
      rw [receiveLoop]
      generalize receiveFile fileSystem meta_ ⟨bytes, ending⟩ done = stopped
        at same goesOn onward ⊢
      obtain ⟨outcome, rest, later⟩ := stopped
      cases outcome with
      | ready value =>
          rw [receiveLoop]
          generalize receiveFile fileSystem meta_ ⟨bytes, .endOfStream⟩ done = ended
            at same goesOn ⊢
          obtain ⟨outcome', ⟨bytes', ending'⟩, later'⟩ := ended
          obtain ⟨rfl, rfl, rfl⟩ := goesOn rfl
          cases same
          exact ih bytes' later
      | failed kind => exact onward
      | pending => exact onward
      | panicked panic => exact onward
      | waiting => exact onward

/-- So it is for a whole side: one that has stopped has done a beginning. -/
theorem notCreatorRun_stopped (surroundings : Surroundings) (message : Message)
    (bytes : List UInt8) (ending : Ending) :
    (notCreatorRun { surroundings with supply := ⟨bytes, ending⟩ } message).2.2 <+:
      (notCreatorRun { surroundings with supply := ⟨bytes, .endOfStream⟩ } message).2.2 := by
  cases message with
  | fileAccept chosen => exact List.prefix_refl _
  | fileOffer offer =>
      cases offer with
      | none => exact List.prefix_refl _
      | some files =>
          simp only [notCreatorRun]
          cases confirmReceive surroundings.debug surroundings.looks surroundings.choice files with
          | error panic => exact List.prefix_refl _
          | ok chosen =>
              simp only [receiveFiles]
              split
              · cases sumSizes surroundings.debug (filesToReceive files chosen) 0 with
                | error panic => exact List.prefix_refl _
                | ok total => exact receiveLoop_stopped _ _ bytes ending []
              · exact List.prefix_refl _

/-- What a peer did with all that it was handed: its part of the transfer, and the chat behind
it.  Where the transfer is not over, it is as if the stream ended here, or the peer has stopped on
the way, with an error or for good, and has done a beginning of that. -/
def Lives (program : Prog Ended) (handed : Segments) (accepted : List UInt8) (ended : Ended)
    (chat : ChatPeer) : Prop :=
  ∃ whole sent rest acts, program.run handed = (whole, sent, rest) ∧
    (ended = whole ∨ ended.1 ≠ .ready () ∧ ended.2 <+: whole.2) ∧
    ChatPeer.lts.Trace (chatAfter ended) acts chat ∧
    acts.flatMap Io.took <+: rest.flatten ∧ accepted <+: sent ++ acts.flatMap Io.wrote

/-! ## What each side sends -/

/-- All that the side that offers may write, and what its chat may read: the offer, the files
that were accepted where an answer arrived, and what it says in the chat. -/
inductive CreatorSends (disk : LocalDisk) (files : Option (Vec OfferedFile)) (stream : Segments)
    (said : List UInt8) : List UInt8 → List UInt8 → Prop where
  | nothing : CreatorSends disk files stream said [] []
  | offer (bytes : List UInt8) (encoded : (offerMessage files).toStdvec = .ok bytes)
      (short : bytes.length < 2 ^ 32) :
      CreatorSends disk files stream said [] (toBe bytes.length ++ bytes ++ [])
  | chats (bytes : List UInt8) (encoded : (offerMessage files).toStdvec = .ok bytes)
      (short : bytes.length < 2 ^ 32) (noFiles : files = none) :
      CreatorSends disk files stream said stream.flatten (toBe bytes.length ++ bytes ++ said)
  | accepted (bytes : List UInt8) (encoded : (offerMessage files).toStdvec = .ok bytes)
      (short : bytes.length < 2 ^ 32) (offered : Vec OfferedFile) (some_ : files = some offered)
      (chosen : Vec Bool) (rest : Segments) (buffer : List UInt8)
      (reply : deserializeFrom stream [] = (.ok (.fileAccept chosen), rest, buffer))
      (ahead trailing : List UInt8)
      (goes : (sendLoop disk (filesToSend (localFiles offered) chosen.val) ⟨[], none⟩).1 =
          .ready () ∧ ahead = rest.flatten ∧ trailing = said ∨ ahead = [] ∧ trailing = []) :
      CreatorSends disk files stream said ahead (toBe bytes.length ++ bytes ++
        ((sendLoop disk (filesToSend (localFiles offered) chosen.val) ⟨[], none⟩).2.sent ++
          trailing))

section Both

variable {disk : LocalDisk} {files : Option (Vec OfferedFile)} {debug : Bool}
  {looks : Nat → Disk × Disk} {choice : Choice} {fileSystem : FileSystem}
  {toCreator toOther : Segments} {effects : List Effect}
  {ahead behind sent replied said answered : List UInt8}

/-- A message that is decoded from a beginning of one message is this one. -/
theorem decoded_start {message other : Protocol.Message} {bytes trailing buffer : List UInt8}
    {stream behind : Segments} (encoded : message.toStdvec = .ok bytes)
    (short : bytes.length < 2 ^ 32)
    (start : stream.flatten <+: toBe bytes.length ++ bytes ++ trailing)
    (decoded : deserializeFrom stream [] = (.ok other, behind, buffer)) :
    other = message ∧ behind.flatten <+: trailing := by
  rcases deserializeFrom_start encoded short start with ⟨error, failed⟩ | ⟨rest, _, same, left_⟩
  · rw [decoded] at failed
    cases failed
  · rw [decoded] at same
    cases same
    exact ⟨rfl, left_⟩

/-- Nothing is decoded where nothing arrives. -/
theorem decoded_some {message : Protocol.Message} {stream behind : Segments} {buffer : List UInt8}
    (decoded : deserializeFrom stream [] = (.ok message, behind, buffer)) :
    stream.flatten ≠ [] := by
  intro empty
  have hidden : peekFrame stream.flatten = none := by
    rw [empty]
    rfl
  have failed := Protocol.deserializeFrom_hidden stream [] hidden
  rw [decoded] at failed
  cases failed

/-- What the side that offers writes begins with its offer. -/
theorem CreatorSends.front (creator : CreatorSends disk files toCreator said ahead sent)
    {stream left_ : Segments} {message : Protocol.Message} {buffer : List UInt8}
    (start : stream.flatten <+: sent)
    (decoded : deserializeFrom stream [] = (.ok message, left_, buffer)) :
    message = offerMessage files := by
  have arrived := decoded_some decoded
  cases creator with
  | nothing => exact absurd (List.prefix_nil.mp start) arrived
  | offer bytes encoded short => exact (decoded_start encoded short start decoded).1
  | chats bytes encoded short noFiles => exact (decoded_start encoded short start decoded).1
  | accepted bytes encoded short offered some_ chosen rest buffer reply ahead trailing goes =>
      exact (decoded_start encoded short start decoded).1

end Both

/-! ## Whole sessions -/

/-- Two sides, of which one may offer files that are as long as it says. -/
structure Sides where
  senderDebug : Bool
  receiverDebug : Bool
  disk : LocalDisk
  files : Option (Vec OfferedFile)
  looks : Nat → Disk × Disk
  choice : Choice
  fileSystem : FileSystem
  sized : ∀ file ∈ offeredFiles files, ∀ content, disk file.localPath = some content →
    content.length = file.size

namespace Sides

variable (sides : Sides)

/-- The side that offers is `true`. -/
def program (side : Bool) : Prog Ended :=
  if side then creatorProgram sides.senderDebug sides.disk sides.files
  else notCreatorProgram sides.receiverDebug sides.looks sides.choice sides.fileSystem

end Sides

end Gday.Chat
