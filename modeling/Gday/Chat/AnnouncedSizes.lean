import Gday.Chat.TransferExact

/-! # Announced sizes

The receiver takes for each file as many bytes as were announced, and does not look whether it
got them: a stream that ends early fills the files behind its end with nothing. -/
set_option autoImplicit false
namespace Gday.Chat

open Gday.Lib.AsyncStream Gday.Lib.LexicalPath Gday.Lib.SegmentedStream
open Gday.Chat.Protocol (Sink)

/-! ## What is received -/

/-- What is written, and to which place, in order. -/
def writes (effects : List Effect) : List (List Component × List UInt8) :=
  effects.filterMap fun effect =>
    match effect with
    | .write path bytes => some (path, bytes)
    | _ => none

theorem writes_mkdir (effects : List Effect) (path : List Component) :
    writes (effects ++ [.mkdir path]) = writes effects := by
  unfold writes
  rw [List.filterMap_append]
  exact List.append_nil _

theorem writes_filled (effects : List Effect) (path : List Component) (bytes : List UInt8) :
    writes (effects ++ [.create path] ++ [.write path bytes]) =
      writes effects ++ [(path, bytes)] := by
  unfold writes
  rw [List.filterMap_append, List.filterMap_append]
  simp

theorem createDirAll_writes (fileSystem : FileSystem) (reversed : List Component)
    (done : List Effect) :
    writes (createDirAll fileSystem reversed done).2 = writes done :=
  createDirAll_keeps writes writes_mkdir fileSystem reversed done

/-- What one file is given: nothing, where something fails before, or as many of the bytes as were
announced and are there. -/
theorem receiveFile_writes (fileSystem : FileSystem) (meta_ : FileMeta) (supply : Supply)
    (done : List Effect) :
    let run := receiveFile fileSystem meta_ supply done
    (writes run.2.2 = writes done ∧ run.1 ≠ .ready ()) ∨
      writes run.2.2 = writes done ++ [(destination meta_, supply.bytes.take meta_.size)] ∧
        run.2.1.bytes = supply.bytes.drop meta_.size := by
  have directories := createDirAll_writes fileSystem (directory meta_).reverse done
  unfold receiveFile
  generalize createDirAll fileSystem (directory meta_).reverse done = made at directories
  obtain ⟨made, middle⟩ := made
  have created : writes (middle ++ [.create (destination meta_)]) = writes done := by
    rw [← directories]
    unfold writes
    rw [List.filterMap_append]
    exact List.append_nil _
  cases made with
  | false => exact .inl ⟨directories, fun ready => by cases ready⟩
  | true =>
      simp only [fillFile, copyBuf]
      split
      · split
        · exact .inr ⟨by rw [writes_filled, directories], rfl⟩
        · exact .inr ⟨by rw [writes_filled, directories], rfl⟩
      · exact .inl ⟨created, fun ready => by cases ready⟩

/-- A file and what it was given: its place, and the announced number of bytes. -/
def Whole (meta_ : FileMeta) (piece : List Component × List UInt8) : Prop :=
  piece.1 = destination meta_ ∧ piece.2.length = meta_.size

/-- As long as there are bytes enough, every file gets its piece of them. -/
theorem receiveLoop_writes (fileSystem : FileSystem) (files : List FileMeta)
    (supply rest : Supply) (done later : List Effect)
    (enough : (files.map FileMeta.size).sum ≤ supply.bytes.length)
    (run : receiveLoop fileSystem files supply done = (.ready (), rest, later)) :
    ∃ pieces, writes later = writes done ++ pieces ∧ List.Forall₂ Whole files pieces ∧
      (pieces.map Prod.snd).flatten ++ rest.bytes = supply.bytes := by
  induction files generalizing supply done with
  | nil =>
      cases run
      exact ⟨[], (List.append_nil _).symm, .nil, rfl⟩
  | cons meta_ files ih =>
      rw [List.map_cons, List.sum_cons] at enough
      unfold receiveLoop at run
      cases first : receiveFile fileSystem meta_ supply done with
      | mk outcome state =>
          obtain ⟨middle, between⟩ := state
          rw [first] at run
          cases outcome with
          | ready value =>
              have one := receiveFile_writes fileSystem meta_ supply done
              rw [first] at one
              obtain ⟨wrote, behind⟩ := one.resolve_left fun failed => failed.2 rfl
              have left_ : (files.map FileMeta.size).sum ≤ middle.bytes.length := by
                rw [behind, List.length_drop]
                omega
              obtain ⟨pieces, others, whole, joined⟩ := ih middle between left_ run
              refine ⟨(destination meta_, supply.bytes.take meta_.size) :: pieces, ?_, ?_, ?_⟩
              · rw [others, wrote, List.append_assoc]
                rfl
              · exact .cons ⟨rfl, List.length_take_of_le (by omega)⟩ whole
              · rw [List.map_cons, List.flatten_cons, List.append_assoc, joined, behind]
                exact List.take_append_drop ..
          | _ => cases run

theorem receiveFilesFrom_run (debug : Bool) (fileSystem : FileSystem) (files : List FileMeta)
    (stream rest : Segments) (effects : List Effect)
    (run : receiveFilesFrom debug fileSystem files stream = (.ready (), rest, effects)) :
    receiveLoop fileSystem files (.ofSegments stream) [] =
      (.ready (), .ofSegments rest, effects) := by
  unfold receiveFilesFrom at run
  cases summed : sumSizes debug files 0 with
  | error panic =>
      rw [summed] at run
      cases run
  | ok total =>
      rw [summed] at run
      have ran : receiveLoopFrom fileSystem files stream [] = _ := run
      rw [receiveLoopFrom_supply, ran]

/-! ## Truncated transfers -/

/-- `Ok` means that every file is whole, and a stream that is too short is an error. -/
structure ReportsTruncation (debug : Bool) (fileSystem : FileSystem) (files : List FileMeta)
    (stream : Segments) : Prop where
  whole : ∀ rest effects,
    receiveFilesFrom debug fileSystem files stream = (.ready (), rest, effects) →
      List.Forall₂ Whole files (writes effects)
  short : stream.flatten.length < (files.map FileMeta.size).sum →
    ∃ kind, (receiveFilesFrom debug fileSystem files stream).1 = .failed kind

/-- Every call succeeds. -/
def workingFileSystem : FileSystem := ⟨fun _ _ => .created, fun _ _ => true, fun _ _ => true⟩

/-- Nothing fails there, however few bytes there are. -/
theorem receiveLoop_working (files : List FileMeta) (bytes : List UInt8) (done : List Effect) :
    ∃ rest later, receiveLoop workingFileSystem files ⟨bytes, .endOfStream⟩ done =
      (.ready (), ⟨rest, .endOfStream⟩, later) := by
  induction files generalizing bytes done with
  | nil => exact ⟨bytes, done, rfl⟩
  | cons meta_ files ih =>
      have made : ∃ later, createDirAll workingFileSystem (directory meta_).reverse done =
          (true, later) := by
        cases (directory meta_).reverse with
        | nil => exact ⟨_, rfl⟩
        | cons last rest => exact ⟨_, rfl⟩
      obtain ⟨middle, made⟩ := made
      obtain ⟨behind, later, others⟩ := ih (bytes.drop meta_.size)
        (middle ++ [.create (destination meta_)] ++
          [.write (destination meta_) (bytes.take meta_.size)])
      have filled : fillFile workingFileSystem meta_ ⟨bytes, .endOfStream⟩ middle =
          (.ready (), ⟨bytes.drop meta_.size, .endOfStream⟩,
            middle ++ [.create (destination meta_)] ++
              [.write (destination meta_) (bytes.take meta_.size)]) := by
        unfold fillFile copyBuf
        simp only [ite_self]
        rfl
      refine ⟨behind, later, ?_⟩
      unfold receiveLoop receiveFile
      simp only [made, filled]
      exact others

theorem receiveFilesFrom_working (debug : Bool) (files : List FileMeta) (stream : Segments)
    (kind : ErrorKind) :
    (receiveFilesFrom debug workingFileSystem files stream).1 ≠ .failed kind := by
  unfold receiveFilesFrom
  cases sumSizes debug files 0 with
  | error panic => exact nofun
  | ok total =>
      obtain ⟨rest, later, ready⟩ := receiveLoop_working files stream.flatten []
      have cut := receiveLoopFrom_supply workingFileSystem files stream []
      unfold Supply.ofSegments at cut
      rw [ready] at cut
      have outcome := congrArg Prod.fst cut
      simp only at outcome ⊢
      rw [← outcome]
      exact nofun

/-- A transfer that is cut short goes unnoticed unless the file system fails. -/
theorem reportsTruncation_iff (debug : Bool) (files : List FileMeta) (stream : Segments) :
    (∀ fileSystem, ReportsTruncation debug fileSystem files stream) ↔
      (files.map FileMeta.size).sum ≤ stream.flatten.length := by
  constructor
  · intro reports
    by_contra short
    obtain ⟨kind, failed⟩ := (reports workingFileSystem).short (by omega)
    exact receiveFilesFrom_working debug files stream kind failed
  · intro enough fileSystem
    refine ⟨?_, fun short => absurd enough (by omega)⟩
    intro rest effects run
    obtain ⟨pieces, wrote, whole, _⟩ := receiveLoop_writes fileSystem files _ _ [] effects enough
      (receiveFilesFrom_run debug fileSystem files stream rest effects run)
    rw [wrote]
    exact whole

/-- The peer quits after one byte of the first file: the second one is empty, and `Ok`. -/
theorem truncated_unreported : ¬ ReportsTruncation true (treeFileSystem id emptyFolder)
    [⟨['a'], 2⟩, ⟨['b'], 1⟩] [[65]] := by
  intro reports
  obtain ⟨kind, failed⟩ := reports.short (by decide)
  have ready : (receiveFilesFrom true (treeFileSystem id emptyFolder)
      [⟨['a'], 2⟩, ⟨['b'], 1⟩] [[65]]).1 = .ready () := by decide +kernel
  rw [ready] at failed
  cases failed

end Gday.Chat
