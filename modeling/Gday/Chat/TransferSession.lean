import Gday.Chat.MessageFraming
import Gday.Chat.OfferTotals
import Gday.Chat.TransferExact
import Gday.Lib.Program

/-! # Offer, answer and files, by two programs

`creator_run` and `not_creator_run` up to the chat as sequential programs, put together from
`serialize_into`, `deserialize_from`, `send_files` and `receive_files`.  Alone with a stream
each does what the functions do. -/
set_option autoImplicit false
namespace Gday.Chat

open Gday.Lib.AsyncStream Gday.Lib.BigEndian Gday.Lib.LexicalPath Gday.Lib.Postcard
open Gday.Lib.Program Gday.Lib.SegmentedStream
open Gday.Chat.Protocol (PathBuf Sink grow)

/-- What a side returns with, and what it did to its file system. -/
abbrev Ended := Outcome Unit × List Effect

/-! ## Messages -/

section Messages

variable {Result : Type}

/-- `serialize_into`. -/
def sendMessage (message : Protocol.Message) (next : Except Protocol.Error Unit → Prog Result) :
    Prog Result :=
  match message.toStdvec with
  | .error error => next (.error (.postcard error))
  | .ok bytes =>
      if bytes.length < 2 ^ 32 then .write (toBe bytes.length ++ bytes) (.flush (next (.ok ())))
      else next (.error .messageTooLong)

/-- `deserialize_from`. -/
def receiveMessage (tmpBuf : List UInt8)
    (next : Except Protocol.Error Protocol.Message → Prog Result) : Prog Result :=
  .read 4 [] fun header =>
    if header.length = 4 then
      .read (ofBe header) [] fun bytes =>
        if bytes.length = ofBe header then
          next ((Protocol.Message.fromBytes
            (bytes ++ (grow tmpBuf (ofBe header)).drop (ofBe header))).mapError .postcard)
        else next (.error .io)
    else next (.error .io)

theorem sendMessage_run (message : Protocol.Message)
    (next : Except Protocol.Error Unit → Prog Result) (stream : Segments) :
    (sendMessage message next).run stream =
      let sent := Protocol.serializeInto ⟨[], none⟩ message
      let later := (next sent.1).run stream
      (later.1, sent.2.sent ++ later.2.1, later.2.2) := by
  unfold sendMessage Protocol.serializeInto
  cases message.toStdvec with
  | error error => rfl
  | ok bytes =>
      by_cases short : bytes.length < 2 ^ 32
      · simp only [if_pos short]
        rfl
      · simp only [if_neg short]
        rfl

theorem receiveMessage_run (tmpBuf : List UInt8)
    (next : Except Protocol.Error Protocol.Message → Prog Result) (stream : Segments) :
    (receiveMessage tmpBuf next).run stream =
      let received := Protocol.deserializeFrom stream tmpBuf
      (next received.1).run received.2.1 := by
  unfold receiveMessage Protocol.deserializeFrom readExact
  simp only [Prog.run, List.nil_append]
  by_cases whole : (takeUpTo 4 stream).1.length = 4
  · simp only [if_pos whole, Prog.run, List.nil_append]
    by_cases all : (takeUpTo (ofBe (takeUpTo 4 stream).1) (takeUpTo 4 stream).2).1.length =
      ofBe (takeUpTo 4 stream).1
    · simp only [if_pos all]
      generalize Protocol.Message.fromBytes _ = decoded
      cases decoded <;> rfl
    · simp only [if_neg all]
  · simp only [if_neg whole]

end Messages

/-! ## The side that offers -/

/-- `LocalFileMeta`, its public path and its size as they are encoded. -/
structure OfferedFile where
  localPath : Path
  publicPath : PathBuf
  size : UInt64

def OfferedFile.meta_ (file : OfferedFile) : Protocol.FileMeta := ⟨file.publicPath, file.size⟩

def OfferedFile.local_ (file : OfferedFile) : LocalFileMeta :=
  ⟨file.localPath, receivedPath file.publicPath, file.size.toNat⟩

def offeredMetas (files : Vec OfferedFile) : Vec Protocol.FileMeta :=
  ⟨files.val.map OfferedFile.meta_, (List.length_map OfferedFile.meta_).symm ▸ files.property⟩

def localFiles (files : Vec OfferedFile) : List LocalFileMeta := files.val.map OfferedFile.local_

def offerMessage (files : Option (Vec OfferedFile)) : Protocol.Message :=
  .fileOffer (files.map offeredMetas)

section Sending

variable {Result : Type}

def sendLoopProgram (disk : LocalDisk) :
    List LocalFileMeta → (Outcome Unit → Prog Result) → Prog Result
  | [], next => .flush (next (.ready ()))
  | file :: files, next =>
      match disk file.localPath with
      | none => next (.failed .inner)
      | some content => .write content (sendLoopProgram disk files next)

/-- `send_files`. -/
def sendFilesProgram (debug : Bool) (disk : LocalDisk) (files : List LocalFileMeta)
    (next : Outcome Unit → Prog Result) : Prog Result :=
  match sumSizes debug (files.map LocalFileMeta.public_) 0 with
  | .error panic => next (.panicked panic)
  | .ok _ => sendLoopProgram disk files next

end Sending

/-- `creator_run` on the reply to its offer. -/
def sendAccepted (debug : Bool) (disk : LocalDisk) (files : Vec OfferedFile) :
    Except Protocol.Error Protocol.Message → Prog Ended
  | .error _ => .done (.failed .inner, [])
  | .ok (.fileAccept chosen) =>
      sendFilesProgram debug disk (filesToSend (localFiles files) chosen.val)
        fun outcome => .done (outcome, [])
  | .ok (.fileOffer _) => .done (.failed .invalidData, [])

/-- `creator_run` up to the chat. -/
def creatorProgram (debug : Bool) (disk : LocalDisk) (files : Option (Vec OfferedFile)) :
    Prog Ended :=
  sendMessage (offerMessage files) fun
    | .error _ => .done (.failed .inner, [])
    | .ok () =>
        match files with
        | none => .done (.ready (), [])
        | some files => receiveMessage [] (sendAccepted debug disk files)

/-! ## The side that is asked -/

/-- Opening the file and copying into it. -/
def fillFileProgram (fileSystem : FileSystem) (meta_ : FileMeta) (done : List Effect)
    (next : Ended → Prog Ended) : Prog Ended :=
  let created := done ++ [.create (destination meta_)]
  if fileSystem.create done (destination meta_) then
    .read meta_.size [] fun bytes =>
      let written := created ++ [.write (destination meta_) bytes]
      if fileSystem.write created (destination meta_) then next (.ready (), written)
      else next (.failed .inner, written)
  else next (.failed .inner, created)

def receiveFileProgram (fileSystem : FileSystem) (meta_ : FileMeta) (done : List Effect)
    (next : Ended → Prog Ended) : Prog Ended :=
  match createDirAll fileSystem (directory meta_).reverse done with
  | (false, later) => next (.failed .inner, later)
  | (true, later) => fillFileProgram fileSystem meta_ later next

def receiveLoopProgram (fileSystem : FileSystem) : List FileMeta → List Effect → Prog Ended
  | [], done => .done (.ready (), done)
  | meta_ :: files, done =>
      receiveFileProgram fileSystem meta_ done fun
        | (.ready (), later) => receiveLoopProgram fileSystem files later
        | stopped => .done stopped

/-- `receive_files`. -/
def receiveFilesProgram (debug : Bool) (fileSystem : FileSystem) (files : List FileMeta) :
    Prog Ended :=
  match sumSizes debug files 0 with
  | .error panic => .done (.panicked panic, [])
  | .ok _ => receiveLoopProgram fileSystem files []

theorem tallyFiles_length {debug : Bool} {looks : Nat → Disk × Disk} {files : List FileMeta}
    {tally after : Tally} (run : tallyFiles debug looks files tally = .ok after) :
    after.newFiles.length ≤ tally.newFiles.length + files.length := by
  induction files generalizing looks tally with
  | nil =>
      cases run
      exact Nat.le_refl _
  | cons meta_ files ih =>
      obtain ⟨next, first, others⟩ := tallyFiles_cons_ok run
      obtain ⟨_, newFiles⟩ := tallyFile_ok first
      have later := ih others
      have atMost : next.newFiles.length ≤ tally.newFiles.length + 1 := by
        rw [newFiles, List.length_append]
        split <;> simp
      rw [List.length_cons]
      omega

theorem confirmReceive_length {debug : Bool} {looks : Nat → Disk × Disk} {choice : Choice}
    {files : List FileMeta} {chosen : List Bool}
    (chose : confirmReceive debug looks choice files = .ok chosen) :
    chosen.length ≤ files.length := by
  unfold confirmReceive at chose
  cases ran : tallyFiles debug looks files ⟨[], 0, 0⟩ with
  | error panic =>
      rw [ran] at chose
      cases chose
  | ok tally =>
      rw [ran] at chose
      cases choice with
      | onlyNew =>
          cases chose
          have length := tallyFiles_length ran
          rwa [List.length_nil, Nat.zero_add] at length
      | all =>
          cases chose
          rw [List.length_replicate]
      | reject =>
          cases chose
          rw [List.length_replicate]

def receivedFiles (files : Vec Protocol.FileMeta) : List FileMeta := files.val.map receivedFile

theorem chosen_short {debug : Bool} {looks : Nat → Disk × Disk} {choice : Choice}
    {files : Vec Protocol.FileMeta} {chosen : List Bool}
    (chose : confirmReceive debug looks choice (receivedFiles files) = .ok chosen) :
    chosen.length < 2 ^ 64 := by
  have length := confirmReceive_length chose
  rw [receivedFiles, List.length_map] at length
  exact Nat.lt_of_le_of_lt length files.property

/-- `not_creator_run` on an offer of files. -/
def answerOffer (debug : Bool) (looks : Nat → Disk × Disk) (choice : Choice)
    (fileSystem : FileSystem) (files : Vec Protocol.FileMeta) : Prog Ended :=
  match chose : confirmReceive debug looks choice (receivedFiles files) with
  | .error panic => .done (.panicked panic, [])
  | .ok chosen =>
      sendMessage (.fileAccept ⟨chosen, chosen_short chose⟩) fun
        | .error _ => .done (.failed .inner, [])
        | .ok () =>
            receiveFilesProgram debug fileSystem (filesToReceive (receivedFiles files) chosen)

/-- `not_creator_run` on the first message. -/
def answerMessage (debug : Bool) (looks : Nat → Disk × Disk) (choice : Choice)
    (fileSystem : FileSystem) : Except Protocol.Error Protocol.Message → Prog Ended
  | .error _ => .done (.failed .inner, [])
  | .ok (.fileOffer none) => .done (.ready (), [])
  | .ok (.fileOffer (some files)) => answerOffer debug looks choice fileSystem files
  | .ok (.fileAccept _) => .done (.failed .invalidData, [])

/-- `not_creator_run` up to the chat. -/
def notCreatorProgram (debug : Bool) (looks : Nat → Disk × Disk) (choice : Choice)
    (fileSystem : FileSystem) : Prog Ended :=
  receiveMessage [] (answerMessage debug looks choice fileSystem)

/-! ## The programs alone -/

def receivedMessage : Protocol.Message → Message
  | .fileOffer files => .fileOffer (files.map receivedFiles)
  | .fileAccept chosen => .fileAccept chosen.val

theorem sendLoop_sink (disk : LocalDisk) (files : List LocalFileMeta) (already : List UInt8) :
    sendLoop disk files ⟨already, none⟩ =
      ((sendLoop disk files ⟨[], none⟩).1,
        ⟨already ++ (sendLoop disk files ⟨[], none⟩).2.sent, none⟩) := by
  induction files generalizing already with
  | nil => simp [sendLoop]
  | cons file files ih =>
      unfold sendLoop
      cases disk file.localPath with
      | none => simp
      | some content =>
          simp only [Protocol.Sink.writeAll, List.nil_append]
          rw [ih, ih content, List.append_assoc]

theorem sendLoopProgram_run {Result : Type} (disk : LocalDisk) (files : List LocalFileMeta)
    (next : Outcome Unit → Prog Result) (stream : Segments) :
    (sendLoopProgram disk files next).run stream =
      let sent := sendLoop disk files ⟨[], none⟩
      let later := (next sent.1).run stream
      (later.1, sent.2.sent ++ later.2.1, later.2.2) := by
  induction files with
  | nil => rfl
  | cons file files ih =>
      unfold sendLoopProgram sendLoop
      cases disk file.localPath with
      | none => rfl
      | some content =>
          simp only [Prog.run, ih, Protocol.Sink.writeAll, List.nil_append]
          rw [sendLoop_sink disk files content]
          simp only [List.append_assoc]

theorem sendFilesProgram_run {Result : Type} (debug : Bool) (disk : LocalDisk)
    (files : List LocalFileMeta) (next : Outcome Unit → Prog Result) (stream : Segments) :
    (sendFilesProgram debug disk files next).run stream =
      let sent := sendFiles debug disk files ⟨[], none⟩
      let later := (next sent.1).run stream
      (later.1, sent.2.sent ++ later.2.1, later.2.2) := by
  unfold sendFilesProgram sendFiles
  cases sumSizes debug (files.map LocalFileMeta.public_) 0 with
  | error panic => rfl
  | ok total => exact sendLoopProgram_run disk files next stream

/-- The offer, and then what `creator_run` does on the reply. -/
theorem creatorProgram_run (debug : Bool) (disk : LocalDisk) (files : Vec OfferedFile)
    (stream : Segments) :
    (creatorProgram debug disk (some files)).run stream =
      match Protocol.serializeInto ⟨[], none⟩ (offerMessage (some files)) with
      | (.error _, sink) => ((.failed .inner, []), sink.sent, stream)
      | (.ok (), sink) =>
          let reply := Protocol.deserializeFrom stream []
          let sent := creatorRun debug disk (some (localFiles files))
            (reply.1.toOption.map receivedMessage) ⟨[], none⟩
          ((sent.1, []), sink.sent ++ sent.2.sent, reply.2.1) := by
  unfold creatorProgram
  rw [sendMessage_run]
  generalize Protocol.serializeInto ⟨[], none⟩ (offerMessage (some files)) = offered
  obtain ⟨outcome, sink⟩ := offered
  cases outcome with
  | error error => simp [Prog.run]
  | ok value =>
      simp only [receiveMessage_run]
      generalize Protocol.deserializeFrom stream [] = reply
      obtain ⟨message, rest, buffer⟩ := reply
      cases message with
      | error error => rfl
      | ok message =>
          cases message with
          | fileOffer files => rfl
          | fileAccept chosen =>
              simp only [sendAccepted, sendFilesProgram_run]
              simp [Prog.run, creatorRun, receivedMessage, Except.toOption]

theorem receiveLoopProgram_run (fileSystem : FileSystem) (files : List FileMeta)
    (done : List Effect) (stream : Segments) :
    (receiveLoopProgram fileSystem files done).run stream =
      let received := receiveLoopFrom fileSystem files stream done
      ((received.1, received.2.2), [], received.2.1) := by
  induction files generalizing done stream with
  | nil => rfl
  | cons meta_ files ih =>
      unfold receiveLoopProgram receiveLoopFrom receiveFileProgram receiveFileFrom
      cases createDirAll fileSystem (directory meta_).reverse done with
      | mk made later =>
          cases made with
          | false => rfl
          | true =>
              simp only
              unfold fillFileProgram fillFileFrom
              by_cases opens : fileSystem.create later (destination meta_) = true
              · simp only [if_pos opens, Prog.run, List.nil_append]
                by_cases writes : fileSystem.write (later ++ [.create (destination meta_)])
                    (destination meta_) = true
                · simp only [if_pos writes]
                  exact ih _ _
                · simp only [if_neg writes]
                  rfl
              · simp only [if_neg opens]
                rfl

theorem receiveFilesProgram_run (debug : Bool) (fileSystem : FileSystem) (files : List FileMeta)
    (stream : Segments) :
    (receiveFilesProgram debug fileSystem files).run stream =
      let received := receiveFilesFrom debug fileSystem files stream
      ((received.1, received.2.2), [], received.2.1) := by
  unfold receiveFilesProgram receiveFilesFrom
  cases sumSizes debug files 0 with
  | error panic => rfl
  | ok total => exact receiveLoopProgram_run fileSystem files [] stream

theorem receiveFilesFrom_supply (debug : Bool) (fileSystem : FileSystem) (files : List FileMeta)
    (stream : Segments) :
    receiveFiles debug fileSystem files (.ofSegments stream) =
      ((receiveFilesFrom debug fileSystem files stream).1,
        .ofSegments (receiveFilesFrom debug fileSystem files stream).2.1,
        (receiveFilesFrom debug fileSystem files stream).2.2) := by
  unfold receiveFiles receiveFilesFrom
  cases sumSizes debug files 0 with
  | error panic => rfl
  | ok total => exact receiveLoopFrom_supply fileSystem files stream []

theorem answerOffer_run (debug : Bool) (looks : Nat → Disk × Disk) (choice : Choice)
    (fileSystem : FileSystem) (files : Vec Protocol.FileMeta) (stream : Segments) :
    ∃ replySent sent rest,
      (answerOffer debug looks choice fileSystem files).run stream =
        (let ended := notCreatorRun ⟨debug, looks, choice, replySent, fileSystem,
          .ofSegments stream⟩ (.fileOffer (some (receivedFiles files)))
        ((ended.1, ended.2.2), sent, rest)) := by
  unfold answerOffer
  split
  · next panic chose => exact ⟨true, [], stream, by simp [notCreatorRun, chose, Prog.run]⟩
  · next chosen chose =>
      rw [sendMessage_run]
      generalize Protocol.serializeInto ⟨[], none⟩ _ = answered
      obtain ⟨outcome, sink⟩ := answered
      cases outcome with
      | error error =>
          exact ⟨false, sink.sent ++ [], stream, by simp [notCreatorRun, chose, Prog.run]⟩
      | ok value =>
          refine ⟨true, sink.sent ++ [], (receiveFilesFrom debug fileSystem
            (filesToReceive (receivedFiles files) chosen) stream).2.1, ?_⟩
          simp only [receiveFilesProgram_run, notCreatorRun, chose, if_true,
            receiveFilesFrom_supply]

/-- What `not_creator_run` does on the message that it received. -/
theorem notCreatorProgram_run (debug : Bool) (looks : Nat → Disk × Disk) (choice : Choice)
    (fileSystem : FileSystem) (stream : Segments) :
    ∃ replySent sent rest,
      (notCreatorProgram debug looks choice fileSystem).run stream =
        match Protocol.deserializeFrom stream [] with
        | (.error _, rest, _) => ((.failed .inner, []), [], rest)
        | (.ok message, behind, _) =>
            let ended := notCreatorRun ⟨debug, looks, choice, replySent, fileSystem,
              .ofSegments behind⟩ (receivedMessage message)
            ((ended.1, ended.2.2), sent, rest) := by
  unfold notCreatorProgram
  rw [receiveMessage_run]
  generalize Protocol.deserializeFrom stream [] = received
  obtain ⟨message, behind, buffer⟩ := received
  cases message with
  | error error => exact ⟨true, [], behind, rfl⟩
  | ok message =>
      cases message with
      | fileAccept chosen => exact ⟨true, [], behind, rfl⟩
      | fileOffer files =>
          cases files with
          | none => exact ⟨true, [], behind, rfl⟩
          | some files => exact answerOffer_run debug looks choice fileSystem files behind

end Gday.Chat
