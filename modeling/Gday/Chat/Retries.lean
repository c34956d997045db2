import Gday.Chat.OnlyNewFiles
import Gday.Chat.TransferCompletes

/-! # Taking an offer again

The same files are offered once more and the answer is "2", after a transfer that broke off or
after any other.  One such transfer brings the first files of the offer, as many as were missing;
every further one brings only files that are there, so that what is missing then stays missing. -/
set_option autoImplicit false
namespace Gday.Chat

open Relation
open Gday.Lib.Duplex Gday.Lib.LexicalPath Gday.Lib.Postcard Gday.Lib.Program
open Gday.Lib.Program.Pair

/-! ## The disk from one transfer to the next -/

/-- The sizes that are found once these effects have taken place. -/
def Disk.after (disk : Disk) (effects : List Effect) : Disk := fun path =>
  ((stored id effects (components path)).map List.length).or (disk path)

theorem again_granted {fileSystem : FileSystem} {content : LocalFileMeta → List UInt8}
    {files : List LocalFileMeta} (grants : fileSystem.Grants content files []) {debug : Bool}
    {disk : Disk} {chosen : List Bool}
    (chose : confirmReceive debug (fun _ => (disk, disk)) .onlyNew
      (files.map LocalFileMeta.public_) = .ok chosen) :
    fileSystem.Grants content (filesToSend files chosen) [] := by
  rw [confirmReceive_onlyNew _ _ _ _ chose, filesToSend_replicate]
  exact grants.take _

/-- The same offer to the same peer, who has this disk and answers "2".  The file system is as it
is by then, and grants the offer. -/
def Setting.again (setting : Setting) (fileSystem : FileSystem)
    (grants : fileSystem.Grants setting.content (offeredFiles setting.files) [])
    (disk : Disk) : Setting :=
  { setting with
    looks := fun _ => (disk, disk)
    choice := .onlyNew
    fileSystem := fileSystem
    granted := fun _ chose => again_granted grants chose }

/-- A whole transfer, up to where the side that is asked has returned. -/
def Setting.RetryOn (setting : Setting) (capacity : Option Nat) (fileSystem : FileSystem)
    (grants : fileSystem.Grants setting.content (offeredFiles setting.files) [])
    (disk next : Disk) : Prop :=
  ∃ (system : Pair Ended) (outcome : Lib.AsyncStream.Outcome Unit) (effects : List Effect),
    ReflTransGen (Goes capacity) (start (setting.again fileSystem grants disk).creator
        (setting.again fileSystem grants disk).notCreator) system ∧
      system.programs false = .done (outcome, effects) ∧ next = disk.after effects

def Setting.Retry (setting : Setting) (capacity : Option Nat) (disk next : Disk) : Prop :=
  ∃ fileSystem grants, setting.RetryOn capacity fileSystem grants disk next

/-- The files that are missing, or have another size, in the order of the offer. -/
def Setting.missing (setting : Setting) (disk : Disk) : List FileMeta :=
  setting.asked.filter (isNew disk)

theorem isNew_of_size {disk : Disk} {meta_ : FileMeta}
    (there : disk (join receivedFileFolder meta_.path) = some meta_.size) :
    isNew disk meta_ = false := by
  rw [isNew, fileExists, there, beq_self_eq_true]
  rfl

/-- Where the first files are there, those that are missing are behind them. -/
theorem filter_behind {disk : Disk} {files : List FileMeta} {count : Nat}
    (there : ∀ meta_ ∈ files.take count, isNew disk meta_ = false) :
    files.filter (isNew disk) = (files.drop count).filter (isNew disk) := by
  have noneNew : (files.take count).filter (isNew disk) = [] :=
    List.filter_eq_nil_iff.mpr fun meta_ member => by rw [there meta_ member]; exact nofun
  conv_lhs => rw [← List.take_append_drop count files, List.filter_append, noneNew]
  rfl

namespace Setting

variable (setting : Setting) {capacity : Option Nat} {disk next last : Disk}
  {fileSystem : FileSystem}
  {grants : fileSystem.Grants setting.content (offeredFiles setting.files) []}

/-- No two files of the offer go to the same place. -/
def Distinct : Prop := (setting.asked.map destination).Nodup

variable {setting}

/-- What the answer "2" accepts: as many of the files, from the first on, as are missing. -/
theorem again_accepted {chosen : List Bool}
    (answers : (setting.again fileSystem grants disk).Answers chosen) :
    ((setting.again fileSystem grants disk).accepted chosen).map LocalFileMeta.public_ =
      setting.asked.take (setting.asked.countP (isNew disk)) := by
  cases offer : setting.files with
  | none =>
      have nothing : offeredFiles setting.files = [] := by rw [offer]; rfl
      show (filesToSend (offeredFiles setting.files) chosen).map _ =
        ((offeredFiles setting.files).map _).take _
      rw [nothing, List.map_nil, List.take_nil]
      rfl
  | some files =>
      have vector := confirmReceive_onlyNew _ _ _ _ (answers files offer)
      show (filesToSend (offeredFiles setting.files) chosen).map _ = _
      rw [vector, filesToSend_replicate, List.map_take]
      rfl

/-- After a transfer the first files are there, and the others are as they were. -/
theorem Retry.isNew_after (distinct : setting.Distinct) (some_ : Pipe.Fits capacity 1)
    (retry : setting.Retry capacity disk next) :
    (∀ meta_ ∈ setting.asked.take (setting.asked.countP (isNew disk)),
      isNew next meta_ = false) ∧
    ∀ meta_ ∈ setting.asked.drop (setting.asked.countP (isNew disk)),
      isNew next meta_ = isNew disk meta_ := by
  obtain ⟨fileSystem, grants, system, outcome, effects, run, done, rfl⟩ := retry
  obtain ⟨chosen, wanted, answers, reaches, received⟩ :=
    (setting.again fileSystem grants disk).reaches_end some_
  obtain ⟨final, completes, at_⟩ := reaches.completes
  have same := (done_stays (completes.toFinal system run) done).symm.trans at_.others
  rw [Prog.done.injEq, Prod.mk.injEq] at same
  rw [← same.2] at received
  have distinct' := distinct
  unfold Distinct asked at distinct'
  rw [List.map_map] at distinct'
  obtain ⟨each, only⟩ :=
    (setting.again fileSystem grants disk).effects_stored id distinct' answers received
  have accepted := again_accepted answers
  constructor
  · intro meta_ member
    rw [← accepted] at member
    obtain ⟨file, inside, rfl⟩ := List.mem_map.mp member
    have sized := ((setting.again fileSystem grants disk).accepted_present chosen file inside).2
    have there := each file inside
    apply isNew_of_size
    unfold Disk.after
    rw [show stored id effects (components (join receivedFileFolder file.public_.path)) = _
      from there, Option.map_some, Option.some_or, sized]
    rfl
  · intro meta_ member
    have untouched : stored id effects (destination meta_) = none := by
      by_contra there
      obtain ⟨file, inside, place⟩ := only _ (Option.isSome_iff_ne_none.mpr there)
      have first : file.public_ ∈ setting.asked.take (setting.asked.countP (isNew disk)) := by
        rw [← accepted]
        exact List.mem_map_of_mem inside
      have apart := distinct
      unfold Distinct at apart
      rw [← List.take_append_drop (setting.asked.countP (isNew disk)) setting.asked,
        List.map_append] at apart
      exact (List.nodup_append.mp apart).2.2 _ (List.mem_map_of_mem first) _
        (List.mem_map_of_mem member) place
    rw [isNew, isNew, fileExists, fileExists, Disk.after,
      show stored id effects (components (join receivedFileFolder meta_.path)) = none
      from untouched, Option.map_none, Option.none_or]

/-- What is missing after one transfer. -/
theorem Retry.missing_after (distinct : setting.Distinct) (some_ : Pipe.Fits capacity 1)
    (retry : setting.Retry capacity disk next) :
    setting.missing next =
      (setting.asked.drop (setting.asked.countP (isNew disk))).filter (isNew disk) := by
  obtain ⟨first, others⟩ := retry.isNew_after distinct some_
  rw [missing, filter_behind first, List.filter_congr others]

/-- The files at the front are all there, as many as are missing behind them. -/
def Stuck (setting : Setting) (disk : Disk) : Prop :=
  ∀ meta_ ∈ setting.asked.take (setting.asked.countP (isNew disk)), isNew disk meta_ = false

theorem Retry.stuck (distinct : setting.Distinct) (some_ : Pipe.Fits capacity 1)
    (retry : setting.Retry capacity disk next) : setting.Stuck next := by
  obtain ⟨first, _⟩ := retry.isNew_after distinct some_
  have fewer : setting.asked.countP (isNew next) ≤ setting.asked.countP (isNew disk) := by
    have missing_ := congrArg List.length (retry.missing_after distinct some_)
    rw [missing, ← List.countP_eq_length_filter, ← List.countP_eq_length_filter] at missing_
    rw [missing_]
    exact (List.drop_sublist _ _).countP_le
  intro meta_ member
  exact first meta_ ((List.take_sublist_take_left fewer).subset member)

/-- Where only such files are received, nothing changes. -/
theorem Retry.unchanged (distinct : setting.Distinct) (some_ : Pipe.Fits capacity 1)
    (retry : setting.Retry capacity disk next) (stuck : setting.Stuck disk) :
    setting.missing next = setting.missing disk := by
  rw [retry.missing_after distinct some_, missing, filter_behind stuck]

end Setting

end Gday.Chat
