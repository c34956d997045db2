import Gday.Chat.TransferSession

/-! # A transfer completes

Over any two pipes, bounded or not, however reads and writes are cut and whoever goes first,
the programs of both sides come to one end: all accepted files are there, and nothing is left
in the pipes. -/
set_option autoImplicit false
namespace Gday.Chat

open Relation
open Gday.Lib.AsyncStream Gday.Lib.BigEndian Gday.Lib.LexicalPath Gday.Lib.Postcard
open Gday.Lib.Duplex Gday.Lib.Program Gday.Lib.Program.Pair
open Gday.Chat.Protocol (PathBuf grow)

/-! ## The answer to an offer that was sent -/

theorem encodeVarint_positive (more number : Nat) : 1 ≤ (encodeVarint more number).length := by
  cases more with
  | zero => exact Nat.le_refl 1
  | succ more =>
      rw [encodeVarint]
      split
      · exact Nat.le_refl 1
      · exact Nat.le_add_left 1 _

/-- Every value of a list takes as many bytes as the least of them at least. -/
theorem flatMap_length_ge {Value : Type} (least : Nat) (write : Value → List UInt8)
    (values : List Value) (each : ∀ value, least ≤ (write value).length) :
    least * values.length ≤ (values.flatMap write).length := by
  induction values with
  | nil => exact Nat.le_refl 0
  | cons value values ih =>
      rw [List.flatMap_cons, List.length_append, List.length_cons]
      have first := each value
      have split : least * (values.length + 1) = least * values.length + least := Nat.mul_succ ..
      omega

theorem fileMeta_length (wire : Str × UInt64) : 2 ≤ ((pair str u64).write wire).length := by
  have path : 1 ≤ (str.write wire.1).length := by
    have length := encodeVarint_positive 9 (UInt64.ofNat wire.1.val.length).toNat
    show 1 ≤ (u64.write (UInt64.ofNat wire.1.val.length) ++ wire.1.val).length
    rw [List.length_append]
    exact Nat.le_trans length (Nat.le_add_right ..)
  have size : 1 ≤ (u64.write wire.2).length := encodeVarint_positive 9 wire.2.toNat
  show 2 ≤ (str.write wire.1 ++ u64.write wire.2).length
  rw [List.length_append]
  omega

/-- An offer has two bytes for a file at least. -/
theorem offer_length {files : Vec Protocol.FileMeta} {bytes : List UInt8}
    (encoded : (Protocol.Message.fileOffer (some files)).toStdvec = .ok bytes) :
    2 * files.val.length ≤ bytes.length := by
  unfold Protocol.Message.toStdvec at encoded
  cases wired : Protocol.wireFiles files.val with
  | error error =>
      have failed : (Protocol.Message.fileOffer (some files)).wire = .error error := by
        unfold Protocol.Message.wire
        simp only [wired]
        rfl
      rw [failed] at encoded
      cases encoded
  | ok wires =>
      have whole : (Protocol.Message.fileOffer (some files)).wire =
          .ok ⟨⟨0, Nat.two_pos⟩, some ⟨wires.val, wires.property.symm ▸ files.property⟩⟩ := by
        unfold Protocol.Message.wire
        simp only [wired]
        rfl
      rw [whole] at encoded
      cases encoded
      have listed := flatMap_length_ge 2 (pair str u64).write wires.val fileMeta_length
      rw [wires.property] at listed
      rw [Protocol.wireCodec, enumeration_write_length]
      show _ ≤ 1 + ((option (vec (pair str u64))).write _).length
      rw [option_write_length]
      show _ ≤ 1 + (1 + (u64.write _ ++ wires.val.flatMap (pair str u64).write).length)
      rw [List.length_append]
      omega

theorem accept_sendable {files : Vec Protocol.FileMeta} {chosen : Vec Bool}
    (sendable : (Protocol.Message.fileOffer (some files)).Sendable)
    (fewer : chosen.val.length ≤ files.val.length) :
    (Protocol.Message.fileAccept chosen).Sendable := by
  obtain ⟨offered, encodedOffer, short, _⟩ := Protocol.serializeInto_sendable _ sendable
  have many := offer_length encodedOffer
  refine ⟨trivial, ?_⟩
  intro bytes encoded
  cases encoded
  have number : (u64.write (UInt64.ofNat chosen.val.length)).length ≤ 10 :=
    encodeVarint_length_le 9 _
  have each : (chosen.val.flatMap bool.write).length = chosen.val.length := by
    rw [List.length_flatMap]
    show (chosen.val.map fun _ => 1).sum = chosen.val.length
    simp
  have whole : (Protocol.wireCodec.write ⟨⟨1, Nat.one_lt_two⟩, chosen⟩).length =
      1 + (u64.write (UInt64.ofNat chosen.val.length) ++ chosen.val.flatMap bool.write).length :=
    enumeration_write_length _ _ _
  rw [List.length_append, each] at whole
  omega

/-! ## A message passes -/

section Passes

variable {capacity : Option Nat} {side : Bool} {Result : Type}

theorem reaches_message (some_ : Pipe.Fits capacity 1) (message : Protocol.Message)
    (sendable : message.Sendable) (next : Except Protocol.Error Unit → Prog Result)
    (next' : Except Protocol.Error Protocol.Message → Prog Result) :
    Pair.Reaches capacity side (sendMessage message next) (receiveMessage [] next')
      (next (.ok ())) (next' (.ok message)) := by
  obtain ⟨bytes, encoded, short, _⟩ := Protocol.serializeInto_sendable message sendable
  have sends : sendMessage message next =
      .write (toBe bytes.length ++ bytes) (.flush (next (.ok ()))) := by
    unfold sendMessage
    simp only [encoded, if_pos short]
  have number : ofBe (toBe bytes.length) = bytes.length := ofBe_toBe _ short
  have decoded := message.fromBytes_toStdvec bytes
    ((grow [] bytes.length).drop bytes.length) encoded
  rw [sends]
  unfold receiveMessage
  refine (reaches_hand some_ (toBe bytes.length) bytes [] 0 _).trans ?_
  refine Pair.Reaches.trans (Pair.Reaches.swap (reaches_filled _ _)) ?_
  simp only [List.nil_append, toBe_length, if_true, number]
  refine (reaches_last some_ bytes _).trans ?_
  simp only [if_true, decoded]
  exact reaches_flush

end Passes

/-! ## Files pass -/

section Passes

variable {capacity : Option Nat} {side : Bool} {one : Prog Ended}

theorem reaches_file (some_ : Pipe.Fits capacity 1) {fileSystem : FileSystem} {meta_ : FileMeta}
    {done : List Effect} (grants : fileSystem.GrantsFile meta_ done) (content : List UInt8)
    (sized : content.length = meta_.size) (next : Ended → Prog Ended) :
    Pair.Reaches capacity side (.write content one) (receiveFileProgram fileSystem meta_ done next)
      one (next (.ready (), fileSystem.filled meta_ content done)) := by
  obtain ⟨made, opens, takes⟩ := grants
  unfold receiveFileProgram FileSystem.filled
  generalize createDirAll fileSystem (directory meta_).reverse done = result at made opens takes ⊢
  obtain ⟨fine, middle⟩ := result
  subst made
  simp only [fillFileProgram, opens, if_true]
  rw [← sized]
  have last := @reaches_last _ capacity side one some_ content (fun bytes =>
      if fileSystem.write (middle ++ [.create (destination meta_)]) (destination meta_) then
        next (.ready (), middle ++ [.create (destination meta_)] ++
          [.write (destination meta_) bytes])
      else next (.failed .inner, middle ++ [.create (destination meta_)] ++
        [.write (destination meta_) bytes]))
  simp only [takes, if_true] at last ⊢
  exact last

/-- The contents of the files, one after the other. -/
theorem reaches_files (some_ : Pipe.Fits capacity 1) (disk : LocalDisk)
    (content : LocalFileMeta → List UInt8) (fileSystem : FileSystem) (files : List LocalFileMeta)
    (present : ∀ file ∈ files,
      disk file.localPath = some (content file) ∧ (content file).length = file.size)
    (next : Outcome Unit → Prog Ended) (done : List Effect)
    (grants : fileSystem.Grants content files done) :
    ∃ later, Pair.Reaches capacity side (sendLoopProgram disk files next)
        (receiveLoopProgram fileSystem (files.map LocalFileMeta.public_) done)
        (next (.ready ())) (.done (.ready (), later)) ∧
      receiveLoop fileSystem (files.map LocalFileMeta.public_)
        ⟨files.flatMap content, .endOfStream⟩ done = (.ready (), ⟨[], .endOfStream⟩, later) := by
  induction files generalizing done with
  | nil => exact ⟨done, reaches_flush, rfl⟩
  | cons file files ih =>
      obtain ⟨there, sized⟩ := present file List.mem_cons_self
      obtain ⟨later, others, all⟩ :=
        ih (fun other member => present other (List.mem_cons_of_mem _ member)) _ grants.2
      refine ⟨later, ?_, ?_⟩
      · unfold sendLoopProgram
        rw [List.map_cons]
        unfold receiveLoopProgram
        simp only [there]
        exact (reaches_file some_ grants.1 (content file) sized _).trans others
      · rw [List.map_cons, List.flatMap_cons]
        unfold receiveLoop
        rw [grants.1.receive (content file) (files.flatMap content) .endOfStream sized]
        exact all

end Passes

/-! ## Everything is flushed in time -/

section Flushes

variable {Result : Type}

theorem sendMessage_flushes (message : Protocol.Message)
    (next : Except Protocol.Error Unit → Prog Result)
    (later : ∀ outcome, (next outcome).Flushes false) :
    (sendMessage message next).Flushes false := by
  unfold sendMessage
  split
  · exact later _
  · split
    · exact later _
    · exact later _

theorem receiveMessage_flushes (tmpBuf : List UInt8)
    (next : Except Protocol.Error Protocol.Message → Prog Result)
    (later : ∀ message, (next message).Flushes false) :
    (receiveMessage tmpBuf next).Flushes false := by
  refine ⟨rfl, fun header => ?_⟩
  dsimp only
  split
  · refine ⟨rfl, fun bytes => ?_⟩
    dsimp only
    split
    · exact later _
    · exact later _
  · exact later _

theorem sendLoopProgram_flushes (disk : LocalDisk) (files : List LocalFileMeta)
    (next : Outcome Unit → Prog Result) (dirty : Bool)
    (present : ∀ file ∈ files, ∃ content, disk file.localPath = some content)
    (later : (next (.ready ())).Flushes false) :
    (sendLoopProgram disk files next).Flushes dirty := by
  induction files generalizing dirty with
  | nil => exact later
  | cons file files ih =>
      obtain ⟨content, there⟩ := present file List.mem_cons_self
      unfold sendLoopProgram
      simp only [there]
      exact ih true fun other member => present other (List.mem_cons_of_mem _ member)

theorem receiveLoopProgram_flushes (fileSystem : FileSystem) (files : List FileMeta)
    (done : List Effect) : (receiveLoopProgram fileSystem files done).Flushes false := by
  induction files generalizing done with
  | nil => rfl
  | cons meta_ files ih =>
      unfold receiveLoopProgram receiveFileProgram
      split
      · rfl
      · unfold fillFileProgram
        dsimp only
        split
        · refine ⟨rfl, fun bytes => ?_⟩
          dsimp only
          split
          · exact ih _
          · rfl
        · rfl

theorem receiveFilesProgram_flushes (debug : Bool) (fileSystem : FileSystem)
    (files : List FileMeta) : (receiveFilesProgram debug fileSystem files).Flushes false := by
  unfold receiveFilesProgram
  split
  · rfl
  · exact receiveLoopProgram_flushes fileSystem files []

end Flushes

/-! ## The whole transfer -/

theorem localFiles_public (files : Vec OfferedFile) :
    receivedFiles (offeredMetas files) = (localFiles files).map LocalFileMeta.public_ := by
  unfold receivedFiles offeredMetas localFiles
  rw [List.map_map, List.map_map]
  rfl

theorem confirmReceive_fits (debug : Bool) (looks : Nat → Disk × Disk) (choice : Choice)
    (files : List FileMeta) (fits : debug = true → totalOf files < 2 ^ 64) :
    ∃ chosen, confirmReceive debug looks choice files = .ok chosen := by
  have tallied : ∃ tally, tallyFiles debug looks files ⟨[], 0, 0⟩ = .ok tally := by
    cases debug with
    | false => exact tallyFiles_release looks files _
    | true =>
        obtain ⟨newFiles, tallied⟩ := tallyFiles_exact true looks files ⟨[], 0, 0⟩
          (Nat.le_refl 0) (by simpa using fits rfl)
        exact ⟨_, tallied⟩
  obtain ⟨tally, tallied⟩ := tallied
  unfold confirmReceive
  rw [tallied]
  cases choice with
  | onlyNew => exact ⟨_, rfl⟩
  | all => exact ⟨_, rfl⟩
  | reject => exact ⟨_, rfl⟩

theorem answerOffer_chose {debug : Bool} {looks : Nat → Disk × Disk} {choice : Choice}
    {files : Vec Protocol.FileMeta} {chosen : List Bool}
    (chose : confirmReceive debug looks choice (receivedFiles files) = .ok chosen)
    (fileSystem : FileSystem) :
    answerOffer debug looks choice fileSystem files =
      sendMessage (.fileAccept ⟨chosen, chosen_short chose⟩) fun
        | .error _ => .done (.failed .inner, [])
        | .ok () =>
            receiveFilesProgram debug fileSystem (filesToReceive (receivedFiles files) chosen) := by
  unfold answerOffer
  split
  · next panic failed =>
      rw [chose] at failed
      cases failed
  · next other also =>
      rw [chose] at also
      cases also
      rfl

def offeredFiles (files : Option (Vec OfferedFile)) : List LocalFileMeta :=
  (files.map localFiles).getD []

/-- Two sides between which nothing fails, with or without files: the offer can be sent, the files
are as they were announced, and the file system grants the run that follows the answers. -/
structure Setting where
  senderDebug : Bool
  receiverDebug : Bool
  disk : LocalDisk
  content : LocalFileMeta → List UInt8
  files : Option (Vec OfferedFile)
  looks : Nat → Disk × Disk
  choice : Choice
  fileSystem : FileSystem
  sendable : (offerMessage files).Sendable
  present : ∀ file ∈ offeredFiles files,
    disk file.localPath = some (content file) ∧ (content file).length = file.size
  fits : (senderDebug || receiverDebug) = true →
    ((offeredFiles files).map LocalFileMeta.size).sum < 2 ^ 64
  granted : ∀ chosen,
    confirmReceive receiverDebug looks choice
        ((offeredFiles files).map LocalFileMeta.public_) = .ok chosen →
      fileSystem.Grants content (filesToSend (offeredFiles files) chosen) []

namespace Setting

variable (setting : Setting)

def creator : Prog Ended :=
  creatorProgram setting.senderDebug setting.disk setting.files

def notCreator : Prog Ended :=
  notCreatorProgram setting.receiverDebug setting.looks setting.choice setting.fileSystem

/-- What the peer is asked. -/
def asked : List FileMeta := (offeredFiles setting.files).map LocalFileMeta.public_

/-- The files that are accepted by these answers. -/
def accepted (chosen : List Bool) : List LocalFileMeta :=
  filesToSend (offeredFiles setting.files) chosen

theorem chooses : ∃ chosen,
    confirmReceive setting.receiverDebug setting.looks setting.choice setting.asked =
      .ok chosen := by
  apply confirmReceive_fits
  intro checked
  have fits := setting.fits (by rw [checked, Bool.or_true])
  rw [← public_sizes] at fits
  exact fits

theorem accepted_present (chosen : List Bool) : ∀ file ∈ setting.accepted chosen,
    setting.disk file.localPath = some (setting.content file) ∧
      (setting.content file).length = file.size :=
  fun file member => setting.present file ((filesToSend_sublist _ chosen).subset member)

/-- The peer that is asked answers so. -/
def Answers (chosen : List Bool) : Prop :=
  ∀ files, setting.files = some files →
    confirmReceive setting.receiverDebug setting.looks setting.choice setting.asked = .ok chosen

section Files

variable {files : Vec OfferedFile} (offer : setting.files = some files)

include offer

theorem asked_received : receivedFiles (offeredMetas files) = setting.asked := by
  rw [asked, offer]
  exact localFiles_public files

theorem sends_accepted {chosen : List Bool} (short : chosen.length < 2 ^ 64) :
    sendAccepted setting.senderDebug setting.disk files (.ok (.fileAccept ⟨chosen, short⟩)) =
      sendLoopProgram setting.disk (setting.accepted chosen) fun outcome =>
        .done (outcome, []) := by
  have fits := setting.fits
  unfold accepted
  rw [offer] at fits ⊢
  obtain ⟨total, summed⟩ := sumSizes_chosen setting.senderDebug (localFiles files) chosen
    fun checked => fits (by rw [checked, Bool.true_or])
  simp only [sendAccepted, sendFilesProgram, summed]
  rfl

theorem receives_accepted (chosen : List Bool) :
    receiveFilesProgram setting.receiverDebug setting.fileSystem
        (filesToReceive (receivedFiles (offeredMetas files)) chosen) =
      receiveLoopProgram setting.fileSystem
        ((setting.accepted chosen).map LocalFileMeta.public_) [] := by
  have fits := setting.fits
  unfold accepted
  rw [offer] at fits ⊢
  obtain ⟨total, summed⟩ := sumSizes_chosen setting.receiverDebug (localFiles files) chosen
    fun checked => fits (by rw [checked, Bool.or_true])
  rw [localFiles_public, filesToReceive_public]
  simp only [receiveFilesProgram, summed]
  rfl

/-- Offer, answer and the files that were accepted. -/
theorem reaches_transfer {capacity : Option Nat} (some_ : Pipe.Fits capacity 1)
    (chosen : List Bool)
    (chose : confirmReceive setting.receiverDebug setting.looks setting.choice setting.asked =
      .ok chosen) :
    ∃ effects, Pair.Reaches capacity true setting.creator setting.notCreator
        (.done (.ready (), [])) (.done (.ready (), effects)) ∧
      receiveLoop setting.fileSystem ((setting.accepted chosen).map LocalFileMeta.public_)
        ⟨(setting.accepted chosen).flatMap setting.content, .endOfStream⟩ [] =
          (.ready (), ⟨[], .endOfStream⟩, effects) := by
  obtain ⟨effects, received, done⟩ := @reaches_files capacity true some_
    setting.disk setting.content setting.fileSystem (setting.accepted chosen)
    (setting.accepted_present chosen) (fun outcome => .done (outcome, [])) []
    (setting.granted chosen chose)
  refine ⟨effects, ?_, done⟩
  rw [← setting.asked_received offer] at chose
  have short := confirmReceive_length chose
  rw [receivedFiles, List.length_map] at short
  have sendable := setting.sendable
  unfold creator notCreator creatorProgram notCreatorProgram
  rw [offer] at sendable ⊢
  refine (reaches_message some_ _ sendable _ _).trans ?_
  show Pair.Reaches capacity true
    (receiveMessage [] (sendAccepted setting.senderDebug setting.disk files))
    (answerOffer setting.receiverDebug setting.looks setting.choice setting.fileSystem
      (offeredMetas files)) _ _
  rw [answerOffer_chose chose]
  refine (Pair.Reaches.swap (reaches_message some_ _ (accept_sendable sendable short) _ _)).trans ?_
  rw [setting.sends_accepted offer]
  simp only [setting.receives_accepted offer]
  exact received

end Files

/-- Without files there is only the offer of none. -/
theorem reaches_noFiles {capacity : Option Nat} (some_ : Pipe.Fits capacity 1)
    (offer : setting.files = none) :
    Pair.Reaches capacity true setting.creator setting.notCreator (.done (.ready (), []))
      (.done (.ready (), [])) := by
  have sendable := setting.sendable
  unfold creator notCreator creatorProgram notCreatorProgram
  rw [offer] at sendable ⊢
  exact (reaches_message some_ _ sendable _ _).trans .refl

theorem reaches_end {capacity : Option Nat} (some_ : Pipe.Fits capacity 1) :
    ∃ chosen effects, setting.Answers chosen ∧
      Pair.Reaches capacity true setting.creator setting.notCreator
        (.done (.ready (), [])) (.done (.ready (), effects)) ∧
      receiveLoop setting.fileSystem ((setting.accepted chosen).map LocalFileMeta.public_)
        ⟨(setting.accepted chosen).flatMap setting.content, .endOfStream⟩ [] =
          (.ready (), ⟨[], .endOfStream⟩, effects) := by
  cases offer : setting.files with
  | none =>
      refine ⟨[], [], fun files offers => ?_, setting.reaches_noFiles some_ offer, ?_⟩
      · rw [offer] at offers
        cases offers
      · unfold accepted
        rw [offer]
        rfl
  | some files =>
      obtain ⟨chosen, chose⟩ := setting.chooses
      obtain ⟨effects, reaches, received⟩ := setting.reaches_transfer offer some_ chosen chose
      exact ⟨chosen, effects, fun _ _ => chose, reaches, received⟩

/-! ### Flushing -/

theorem creator_flushes : setting.creator.Flushes false := by
  unfold creator creatorProgram
  refine sendMessage_flushes _ _ fun outcome => ?_
  cases outcome with
  | error error => rfl
  | ok value =>
      cases offer : setting.files with
      | none => rfl
      | some files =>
          refine receiveMessage_flushes _ _ fun reply => ?_
          cases reply with
          | error error => rfl
          | ok message =>
              cases message with
              | fileOffer files => rfl
              | fileAccept chosen =>
                  simp only [sendAccepted, sendFilesProgram]
                  split
                  · rfl
                  · have there := setting.accepted_present chosen.val
                    unfold accepted at there
                    rw [offer] at there
                    exact sendLoopProgram_flushes _ _ _ false
                      (fun file member => ⟨_, (there file member).1⟩) rfl

theorem notCreator_flushes : setting.notCreator.Flushes false := by
  unfold notCreator notCreatorProgram
  refine receiveMessage_flushes _ _ fun message => ?_
  cases message with
  | error error => rfl
  | ok message =>
      cases message with
      | fileAccept chosen => rfl
      | fileOffer files =>
          cases files with
          | none => rfl
          | some files =>
              simp only [answerMessage, answerOffer]
              split
              · rfl
              · refine sendMessage_flushes _ _ fun outcome => ?_
                cases outcome with
                | error error => rfl
                | ok value => exact receiveFilesProgram_flushes _ _ _

/-- What is stored at the end: the accepted files, each at its place, and no others. -/
def Stores {Place : Type} [DecidableEq Place] (place : List Component → Place)
    (chosen : List Bool) (effects : List Effect) : Prop :=
  (∀ file ∈ setting.accepted chosen,
    stored place effects (place (destination file.public_)) = some (setting.content file)) ∧
  ∀ where_, (stored place effects where_).isSome →
    ∃ file ∈ setting.accepted chosen, place (destination file.public_) = where_

theorem accepted_granted {chosen : List Bool} (answers : setting.Answers chosen) :
    setting.fileSystem.Grants setting.content (setting.accepted chosen) [] := by
  cases offer : setting.files with
  | none =>
      have nothing : setting.accepted chosen = [] := by
        rw [accepted, offer]
        rfl
      rw [nothing]
      trivial
  | some files => exact setting.granted chosen (answers files offer)

theorem effects_stored {Place : Type} [DecidableEq Place] (place : List Component → Place)
    (distinct : ((offeredFiles setting.files).map fun file =>
      place (destination file.public_)).Nodup) {chosen : List Bool}
    (answers : setting.Answers chosen) {effects : List Effect}
    (received : receiveLoop setting.fileSystem
      ((setting.accepted chosen).map LocalFileMeta.public_)
      ⟨(setting.accepted chosen).flatMap setting.content, .endOfStream⟩ [] =
        (.ready (), ⟨[], .endOfStream⟩, effects)) : setting.Stores place chosen effects := by
  obtain ⟨later, received', storedAll⟩ := receiveLoop_content place setting.fileSystem
    setting.content [] .endOfStream (setting.accepted chosen)
    (fun file member => (setting.accepted_present chosen file member).2) []
    (setting.accepted_granted answers)
  rw [List.append_nil, received] at received'
  cases received'
  unfold Stores
  rw [storedAll]
  refine ⟨fun file member => ?_, fun where_ there => ?_⟩
  · exact foldl_update_member (setting.accepted chosen)
      (fun file => place (destination file.public_)) setting.content _
      (distinct.sublist ((filesToSend_sublist _ chosen).map _)) file member
  · by_contra nowhere
    push Not at nowhere
    rw [foldl_update_other (setting.accepted chosen)
      (fun file => place (destination file.public_)) setting.content _ where_ nowhere] at there
    exact absurd there Bool.false_ne_true

end Setting

theorem singleton_short {Value : Type} (value : Value) : [value].length < 2 ^ 64 := by
  rw [List.length_singleton]
  omega

/-- A file of two bytes. -/
def oneFile : Vec OfferedFile :=
  ⟨[⟨['/', 'b'], ⟨[98], singleton_short 98⟩, 2⟩], singleton_short _⟩

def oneFileSetting : Setting where
  senderDebug := true
  receiverDebug := true
  disk := fun _ => some [65, 65]
  content := fun _ => [65, 65]
  files := some oneFile
  looks := fun _ => (fun _ => none, fun _ => none)
  choice := .all
  fileSystem := treeFileSystem id emptyFolder
  sendable := by
    refine ⟨?_, ?_⟩
    · intro meta_ member
      rw [List.mem_singleton.mp member]
      decide
    · intro bytes encoded
      cases encoded
      decide
  present := by
    intro file member
    rw [List.mem_singleton.mp member]
    exact ⟨rfl, rfl⟩
  fits := by
    intro checked
    decide
  granted := by
    intro chosen chose
    cases chose
    decide +kernel

end Gday.Chat
