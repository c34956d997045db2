import Gday.Chat.DownloadTree

/-! # A transfer from end to end

Both sides pick the same files, so that what the sender writes for a file is what the
receiver takes for it.  Where the receiver's file system grants the run, the receiver then has the
contents of the files that were accepted, no others, and the stream stands at the first byte of
the chat. -/
set_option autoImplicit false
namespace Gday.Chat

open Gday.Lib.AsyncStream Gday.Lib.LexicalPath Gday.Lib.SegmentedStream
open Gday.Chat.Protocol (Sink)

/-! ## The lists of both sides -/

theorem filesToReceive_public (files : List LocalFileMeta) (chosen : List Bool) :
    filesToReceive (files.map LocalFileMeta.public_) chosen =
      (filesToSend files chosen).map LocalFileMeta.public_ := by
  induction files generalizing chosen with
  | nil => rfl
  | cons file files ih =>
      cases chosen with
      | nil => rfl
      | cons accepted chosen =>
          have rest := ih chosen
          unfold filesToReceive filesToSend at rest ⊢
          cases accepted with
          | false => exact rest
          | true => exact congrArg (file.public_ :: ·) rest

theorem filesToSend_sublist (files : List LocalFileMeta) (chosen : List Bool) :
    (filesToSend files chosen).Sublist files := accepted_sublist files chosen

theorem filesToSend_replicate (files : List LocalFileMeta) (count : Nat) :
    filesToSend files (List.replicate count true) = files.take count :=
  accepted_replicate files count

theorem public_sizes (files : List LocalFileMeta) :
    (files.map LocalFileMeta.public_).map FileMeta.size = files.map LocalFileMeta.size := by
  rw [List.map_map]
  rfl

theorem sumSizes_chosen (debug : Bool) (files : List LocalFileMeta) (chosen : List Bool)
    (fits : debug = true → (files.map LocalFileMeta.size).sum < 2 ^ 64) :
    ∃ total, sumSizes debug ((filesToSend files chosen).map LocalFileMeta.public_) 0 =
      .ok total := by
  apply sumSizes_ok
  intro checked
  have whole := fits checked
  have part := ((filesToSend_sublist files chosen).map LocalFileMeta.size).sum_le_sum
    (fun _ _ => Nat.zero_le _)
  rw [public_sizes]
  omega

/-! ## Sending -/

theorem sendLoop_content (disk : LocalDisk) (content : LocalFileMeta → List UInt8)
    (files : List LocalFileMeta)
    (present : ∀ file ∈ files, disk file.localPath = some (content file)) (already : List UInt8) :
    sendLoop disk files ⟨already, none⟩ =
      (.ready (), ⟨already ++ files.flatMap content, none⟩) := by
  induction files generalizing already with
  | nil => simp [sendLoop]
  | cons file files ih =>
      unfold sendLoop
      rw [present file List.mem_cons_self]
      have rest := ih (fun other member => present other (List.mem_cons_of_mem _ member))
        (already ++ content file)
      rw [List.flatMap_cons, ← List.append_assoc]
      exact rest

/-! ## What is stored -/

section Stored

variable {Place : Type} [DecidableEq Place]

/-- What a run has stored, where `place` says which file a path is. -/
def Effect.apply (place : List Component → Place) (store : Place → Option (List UInt8)) :
    Effect → Place → Option (List UInt8)
  | .mkdir _ => store
  | .create path => Function.update store (place path) (some [])
  | .write path bytes =>
      Function.update store (place path) (some ((store (place path)).getD [] ++ bytes))

def stored (place : List Component → Place) (effects : List Effect) :
    Place → Option (List UInt8) :=
  effects.foldl (Effect.apply place) fun _ => none

theorem stored_snoc (place : List Component → Place) (effects : List Effect) (effect : Effect) :
    stored place (effects ++ [effect]) = effect.apply place (stored place effects) := by
  unfold stored
  rw [List.foldl_append]
  rfl

/-- What no `mkdir` changes is as it was before the directories were made. -/
theorem createDirAll_keeps {View : Type} (view : List Effect → View)
    (blind : ∀ effects path, view (effects ++ [.mkdir path]) = view effects)
    (fileSystem : FileSystem) (reversed : List Component) (done : List Effect) :
    view (createDirAll fileSystem reversed done).2 = view done :=
  createDirAll_rule fileSystem (fun effects => view effects = view done) reversed done rfl
    fun _ _ _ effects same => (blind effects _).trans same

theorem createDirAll_stored (place : List Component → Place) (fileSystem : FileSystem)
    (reversed : List Component) (done : List Effect) :
    stored place (createDirAll fileSystem reversed done).2 = stored place done :=
  createDirAll_keeps (stored place) (fun effects path => stored_snoc place effects (.mkdir path))
    fileSystem reversed done

theorem filled_stored (place : List Component → Place) (fileSystem : FileSystem)
    (meta_ : FileMeta) (content : List UInt8) (done : List Effect) :
    stored place (fileSystem.filled meta_ content done) =
      Function.update (stored place done) (place (destination meta_)) (some content) := by
  have directories := createDirAll_stored place fileSystem (directory meta_).reverse done
  rw [FileSystem.filled, stored_snoc, stored_snoc, directories]
  simp [Effect.apply]

/-- A file that is granted takes its content off the stream. -/
theorem FileSystem.GrantsFile.receive {fileSystem : FileSystem} {meta_ : FileMeta}
    {done : List Effect} (grants : fileSystem.GrantsFile meta_ done) (content rest : List UInt8)
    (ending : Ending) (sized : content.length = meta_.size) :
    receiveFile fileSystem meta_ ⟨content ++ rest, ending⟩ done =
      (.ready (), ⟨rest, ending⟩, fileSystem.filled meta_ content done) := by
  obtain ⟨made, opens, takes⟩ := grants
  unfold receiveFile FileSystem.filled
  generalize createDirAll fileSystem (directory meta_).reverse done = result at made opens takes ⊢
  obtain ⟨fine, later⟩ := result
  subst made
  have copied : copyBuf meta_.size ⟨content ++ rest, ending⟩ =
      (content, .ready (), ⟨rest, ending⟩) := by
    unfold copyBuf
    rw [← sized, if_pos (by simp), List.take_left, List.drop_left]
  simp only [fillFile, opens, takes, copied, if_true]

/-- The contents of the files, one after the other, each at its place. -/
theorem receiveLoop_content (place : List Component → Place) (fileSystem : FileSystem)
    (content : LocalFileMeta → List UInt8) (chat : List UInt8) (ending : Ending)
    (files : List LocalFileMeta) (sized : ∀ file ∈ files, (content file).length = file.size)
    (done : List Effect) (grants : fileSystem.Grants content files done) :
    ∃ later, receiveLoop fileSystem (files.map LocalFileMeta.public_)
        ⟨files.flatMap content ++ chat, ending⟩ done = (.ready (), ⟨chat, ending⟩, later) ∧
      stored place later = files.foldl (fun store file =>
        Function.update store (place (destination file.public_)) (some (content file)))
          (stored place done) := by
  induction files generalizing done with
  | nil => exact ⟨done, rfl, rfl⟩
  | cons file files ih =>
      have first := grants.1.receive (content file) (files.flatMap content ++ chat) ending
        (sized file List.mem_cons_self)
      obtain ⟨later, others, storedOthers⟩ :=
        ih (fun other member => sized other (List.mem_cons_of_mem _ member)) _ grants.2
      refine ⟨later, ?_, ?_⟩
      · rw [List.map_cons, List.flatMap_cons, List.append_assoc]
        unfold receiveLoop
        rw [first]
        exact others
      · rw [storedOthers, filled_stored, List.foldl_cons]

theorem foldl_update_other (files : List LocalFileMeta) (at_ : LocalFileMeta → Place)
    (content : LocalFileMeta → List UInt8) (store : Place → Option (List UInt8)) (where_ : Place)
    (elsewhere : ∀ file ∈ files, at_ file ≠ where_) :
    files.foldl (fun store file => Function.update store (at_ file) (some (content file))) store
      where_ = store where_ := by
  induction files generalizing store with
  | nil => rfl
  | cons file files ih =>
      rw [List.foldl_cons, ih _ fun other member => elsewhere other (List.mem_cons_of_mem _ member)]
      exact Function.update_of_ne (elsewhere file List.mem_cons_self).symm ..

theorem foldl_update_member (files : List LocalFileMeta) (at_ : LocalFileMeta → Place)
    (content : LocalFileMeta → List UInt8) (store : Place → Option (List UInt8))
    (distinct : (files.map at_).Nodup) (file : LocalFileMeta) (member : file ∈ files) :
    files.foldl (fun store file => Function.update store (at_ file) (some (content file))) store
      (at_ file) = some (content file) := by
  induction files generalizing store with
  | nil => exact absurd member List.not_mem_nil
  | cons first files ih =>
      rw [List.map_cons, List.nodup_cons] at distinct
      rw [List.foldl_cons]
      rcases List.mem_cons.mp member with rfl | member
      · rw [foldl_update_other files at_ content _ (at_ file)]
        · exact Function.update_self ..
        · intro other among same
          exact distinct.1 (same ▸ List.mem_map_of_mem among)
      · exact ih _ distinct.2 member

/-- Both sides choose the same files; what the sender writes for them is what the receiver
stores, each file at its own place, and behind it comes the chat.  The receiver's file system has
to grant the run, which a tree does where nothing is in the way of these files, and where none of
them is in the way of another. -/
theorem transfer_exact (senderDebug receiverDebug : Bool) (disk : LocalDisk)
    (content : LocalFileMeta → List UInt8) (files : List LocalFileMeta) (chosen : List Bool)
    (present : ∀ file ∈ filesToSend files chosen,
      disk file.localPath = some (content file) ∧ (content file).length = file.size)
    (fits : (senderDebug || receiverDebug) = true →
      (files.map LocalFileMeta.size).sum < 2 ^ 64)
    (place : List Component → Place)
    (distinct : (files.map fun file => place (destination file.public_)).Nodup) :
    filesToReceive (files.map LocalFileMeta.public_) chosen =
        (filesToSend files chosen).map LocalFileMeta.public_ ∧
      (∃ bytes, (∀ already, creatorRun senderDebug disk (some files) (some (.fileAccept chosen))
          ⟨already, none⟩ = (.ready (), ⟨already ++ bytes, none⟩)) ∧
        ∀ fileSystem : FileSystem, fileSystem.Grants content (filesToSend files chosen) [] →
          ∀ (stream : Segments) (chat : List UInt8), stream.flatten = bytes ++ chat →
            ∃ rest effects, receiveFilesFrom receiverDebug fileSystem
                (filesToReceive (files.map LocalFileMeta.public_) chosen) stream =
                  (.ready (), rest, effects) ∧
              rest.flatten = chat ∧
              (∀ file ∈ filesToSend files chosen,
                stored place effects (place (destination file.public_)) = some (content file)) ∧
              ∀ where_, (stored place effects where_).isSome →
                ∃ file ∈ filesToSend files chosen, place (destination file.public_) = where_) ∧
      ∀ start : Place → Option Kind,
        Clear place start ((filesToSend files chosen).map fun file => destination file.public_) →
          (treeFileSystem place start).Grants content (filesToSend files chosen) [] := by
  have same := filesToReceive_public files chosen
  refine ⟨same, ⟨(filesToSend files chosen).flatMap content, fun already => ?_, ?_⟩, ?_⟩
  · obtain ⟨total, summed⟩ := sumSizes_chosen senderDebug files chosen fun checked =>
      fits (by rw [checked]; rfl)
    unfold creatorRun sendFiles
    simp only [summed]
    exact sendLoop_content disk content _ (fun file member => (present file member).1) already
  · intro fileSystem granted stream chat delivers
    obtain ⟨total, summed⟩ := sumSizes_chosen receiverDebug files chosen fun checked =>
      fits (by rw [checked, Bool.or_true])
    obtain ⟨later, received, storedAll⟩ := receiveLoop_content place fileSystem content chat
      .endOfStream (filesToSend files chosen) (fun file member => (present file member).2) []
      granted
    have cut := receiveLoopFrom_supply fileSystem
      ((filesToSend files chosen).map LocalFileMeta.public_) stream []
    unfold Supply.ofSegments at cut
    rw [delivers, received] at cut
    unfold receiveFilesFrom
    rw [same, summed]
    generalize receiveLoopFrom fileSystem _ stream [] = result at cut ⊢
    obtain ⟨outcome, rest, effects⟩ := result
    simp only [Prod.mk.injEq, Supply.mk.injEq, and_true] at cut
    obtain ⟨rfl, behind, rfl⟩ := cut
    refine ⟨rest, later, rfl, behind.symm, ?_, ?_⟩
    · intro file member
      rw [storedAll]
      apply foldl_update_member (filesToSend files chosen)
        (fun file => place (destination file.public_)) content _ _ file member
      exact distinct.sublist ((filesToSend_sublist files chosen).map _)
    · intro where_ there
      by_contra nowhere
      push Not at nowhere
      rw [storedAll, foldl_update_other (filesToSend files chosen)
        (fun file => place (destination file.public_)) content _ where_ nowhere] at there
      exact absurd there Bool.false_ne_true
  · intro start clear
    exact Clear.grants start content _ (fun file member => List.mem_map.mpr ⟨file, member, rfl⟩) []
      clear

end Stored

/-! ## Two files, and a vector that is too long -/

def twoFiles : List LocalFileMeta :=
  [⟨['/', 'a'], ['a'], 2⟩, ⟨['/', 'b'], ['d', '/', 'b'], 0⟩]

def twoContents (file : LocalFileMeta) : List UInt8 := List.replicate file.size 65

def twoDisk : LocalDisk := fun path => some (if path = ['/', 'a'] then [65, 65] else [])

/-- Both files arrive, the empty one too, and a line of chat is left. -/
theorem twoFiles_transferred :
    ∃ rest effects, receiveFilesFrom true (treeFileSystem id emptyFolder)
        (filesToReceive (twoFiles.map LocalFileMeta.public_) [true, true, true])
          [[65], [65, 10]] = (.ready (), rest, effects) ∧ rest.flatten = [10] ∧
      ∀ file ∈ twoFiles,
        stored id effects (destination file.public_) = some (twoContents file) := by
  have run : creatorRun true twoDisk (some twoFiles) (some (.fileAccept [true, true, true]))
      ⟨[], none⟩ = (.ready (), ⟨[65, 65], none⟩) := by decide
  obtain ⟨_, ⟨bytes, sent, arrives⟩, _⟩ := transfer_exact true true twoDisk twoContents twoFiles
    [true, true, true] (by decide) (by decide) id (by decide)
  have same : [65, 65] = bytes := by
    have both := run.symm.trans (sent [])
    simpa using both
  subst same
  obtain ⟨rest, effects, received, behind, contents, _⟩ :=
    arrives (treeFileSystem id emptyFolder) (by decide +kernel) [[65], [65, 10]] [10] rfl
  exact ⟨rest, effects, received, behind, contents⟩

/-- A file, and another below its name: they are received at different places, but the first is in
the way of the second. -/
def clashingFiles : List LocalFileMeta :=
  [⟨['/', 'a'], ['a'], 1⟩, ⟨['/', 'b'], ['a', '/', 'b'], 1⟩]

/-- Both are accepted and sent, and the second one does not arrive. -/
theorem clashing_not_received :
    (clashingFiles.map fun file => destination file.public_).Nodup ∧
      creatorRun true (fun _ => some [65]) (some clashingFiles)
          (some (.fileAccept [true, true])) ⟨[], none⟩ = (.ready (), ⟨[65, 65], none⟩) ∧
      (receiveFilesFrom true (treeFileSystem id emptyFolder)
        (filesToReceive (clashingFiles.map LocalFileMeta.public_) [true, true]) [[65, 65]]).1 =
          .failed .inner ∧
      stored id (receiveFilesFrom true (treeFileSystem id emptyFolder)
        (filesToReceive (clashingFiles.map LocalFileMeta.public_) [true, true])
          [[65, 65]]).2.2 (destination ⟨['a', '/', 'b'], 1⟩) = none := by
  decide +kernel

end Gday.Chat
