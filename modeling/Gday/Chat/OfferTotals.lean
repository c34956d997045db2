import Gday.Chat.DownloadFolder
import Gday.Chat.MessageFraming

/-! # The sums over an offer

The sizes of an offer are the peer's, as many of them as it likes.  Nothing looks at them
before `confirm_receive` adds them up, once all of them and once the new ones, and
`receive_files` those that were accepted. -/
set_option autoImplicit false
namespace Gday.Chat

open Gday.Lib.AsyncStream Gday.Lib.BigEndian Gday.Lib.LexicalPath Gday.Lib.Postcard
open Gday.Chat.Protocol (PathBuf)

/-- The characters of a path, which came as a string. -/
def receivedPath (path : PathBuf) : Path :=
  ((String.fromUTF8? ⟨path.val.toArray⟩).map String.toList).getD []

def receivedFile (meta_ : Protocol.FileMeta) : FileMeta :=
  ⟨receivedPath meta_.path, meta_.size.toNat⟩

def totalOf (files : List FileMeta) : Nat := (files.map FileMeta.size).sum

/-- The sizes of the files that were not found. -/
def newTotal : (Nat → Disk × Disk) → List FileMeta → Nat
  | _, [] => 0
  | looks, meta_ :: files =>
      (if fileExists (looks 0).1 meta_ then 0 else meta_.size) +
        newTotal (fun k => looks (k + 1)) files

/-- Both sums that the user is shown, and the one over the accepted files. -/
structure TotalsExact (debug : Bool) (looks : Nat → Disk × Disk) (chosen : List Bool)
    (files : List FileMeta) : Prop where
  shown : ∃ newFiles, tallyFiles debug looks files ⟨[], 0, 0⟩ =
    .ok ⟨newFiles, newTotal looks files, totalOf files⟩
  accepted : sumSizes debug (filesToReceive files chosen) 0 =
    .ok (totalOf (filesToReceive files chosen))

/-- The offer is an error, whatever user and file system answer. -/
def Refused (files : List FileMeta) : Prop :=
  ∀ surroundings, ∃ kind,
    (notCreatorRun surroundings (.fileOffer (some files))).1 = .failed kind

/-! ## Sums that fit -/

theorem totalOf_cons (meta_ : FileMeta) (files : List FileMeta) :
    totalOf (meta_ :: files) = meta_.size + totalOf files := by
  rw [totalOf, List.map_cons, List.sum_cons, totalOf]

/-- What is new is part of the whole, so that one bound is enough for both sums. -/
theorem tallyFiles_exact (debug : Bool) (looks : Nat → Disk × Disk) (files : List FileMeta)
    (tally : Tally) (part : tally.newSize ≤ tally.totalSize)
    (fits : tally.totalSize + totalOf files < 2 ^ 64) :
    ∃ newFiles, tallyFiles debug looks files tally =
      .ok ⟨newFiles, tally.newSize + newTotal looks files, tally.totalSize + totalOf files⟩ := by
  induction files generalizing looks tally with
  | nil => exact ⟨tally.newFiles, rfl⟩
  | cons meta_ files ih =>
      rw [totalOf_cons] at fits ⊢
      rw [tallyFiles, tallyFile, addU64_fits debug tally.totalSize meta_.size (by omega), newTotal]
      by_cases found : fileExists (looks 0).1 meta_ = true
      · obtain ⟨newFiles, run⟩ := ih (fun k => looks (k + 1))
          { tally with totalSize := tally.totalSize + meta_.size }
          (Nat.le_add_right_of_le part) (by simp only; omega)
        refine ⟨newFiles, ?_⟩
        simp only [found, if_true, bind, Except.bind, pure, Except.pure, Nat.zero_add, run,
          Nat.add_assoc]
      · obtain ⟨newFiles, run⟩ := ih (fun k => looks (k + 1))
          ⟨tally.newFiles ++ [!fileExists (looks 0).2 meta_], tally.newSize + meta_.size,
            tally.totalSize + meta_.size⟩
          (Nat.add_le_add_right part _) (by simp only; omega)
        refine ⟨newFiles, ?_⟩
        simp only [found, if_false, bind, Except.bind, pure, Except.pure, Bool.false_eq_true,
          addU64_fits debug tally.newSize meta_.size (by omega), run, Nat.add_assoc]

/-- No total that the loop arrives at is more than a `u64`. -/
theorem tallyFiles_small (debug : Bool) (looks : Nat → Disk × Disk) (files : List FileMeta)
    (tally after : Tally) (small : tally.totalSize < 2 ^ 64)
    (run : tallyFiles debug looks files tally = .ok after) : after.totalSize < 2 ^ 64 := by
  induction files generalizing looks tally with
  | nil =>
      rw [tallyFiles] at run
      cases run
      exact small
  | cons meta_ files ih =>
      obtain ⟨next, first, rest⟩ := tallyFiles_cons_ok run
      exact ih _ next (addU64_small debug _ _ _ (tallyFile_ok first).1) rest

/-! ## Sums that do not fit -/

theorem tallyFiles_overflow (looks : Nat → Disk × Disk) (files : List FileMeta) (tally : Tally)
    (part : tally.newSize ≤ tally.totalSize) (small : tally.totalSize < 2 ^ 64)
    (tooMuch : 2 ^ 64 ≤ tally.totalSize + totalOf files) :
    tallyFiles true looks files tally = .error .overflow := by
  induction files generalizing looks tally with
  | nil => exact absurd small (Nat.not_lt_of_le tooMuch)
  | cons meta_ files ih =>
      rw [totalOf_cons] at tooMuch
      rw [tallyFiles, tallyFile]
      by_cases fits : tally.totalSize + meta_.size < 2 ^ 64
      · rw [addU64_fits true _ _ fits]
        by_cases found : fileExists (looks 0).1 meta_ = true
        · simp only [found, if_true, bind, Except.bind, pure, Except.pure]
          exact ih _ { tally with totalSize := tally.totalSize + meta_.size }
            (Nat.le_add_right_of_le part) fits (by simp only; omega)
        · simp only [found, if_false, bind, Except.bind, pure, Except.pure, Bool.false_eq_true,
            addU64_fits true tally.newSize meta_.size (by omega)]
          exact ih _ ⟨_, tally.newSize + meta_.size, tally.totalSize + meta_.size⟩
            (Nat.add_le_add_right part _) fits (by simp only; omega)
      · rw [addU64_overflow _ _ (Nat.le_of_not_lt fits)]
        rfl

/-- Without the check the user is shown the rest that is left of the sum. -/
theorem tallyFiles_wraps (looks : Nat → Disk × Disk) (files : List FileMeta)
    (tally after : Tally) (small : tally.totalSize < 2 ^ 64)
    (run : tallyFiles false looks files tally = .ok after) :
    after.totalSize = (tally.totalSize + totalOf files) % 2 ^ 64 := by
  induction files generalizing looks tally with
  | nil =>
      rw [tallyFiles] at run
      cases run
      exact (Nat.mod_eq_of_lt small).symm
  | cons meta_ files ih =>
      obtain ⟨next, first, rest⟩ := tallyFiles_cons_ok run
      have added := (tallyFile_ok first).1
      have later := ih _ next (addU64_small false _ _ _ added) rest
      rw [addU64_release] at added
      rw [later, ← Except.ok.inj added, Nat.mod_add_mod, totalOf_cons, Nat.add_assoc]

/-! ## The offer -/

theorem filesToReceive_none (files : List FileMeta) :
    filesToReceive files (List.replicate files.length false) = [] := by
  induction files with
  | nil => rfl
  | cons meta_ files ih =>
      rw [List.length_cons, List.replicate_succ, filesToReceive, List.zip_cons_cons,
        List.filter_cons_of_neg Bool.false_ne_true]
      exact ih

/-- No offer is refused: a user can always say no to it. -/
theorem not_refused (files : List FileMeta) : ¬ Refused files := by
  intro refused
  obtain ⟨kind, failed⟩ := refused { obliging with choice := .reject }
  obtain ⟨tally, tallied⟩ := tallyFiles_release obliging.looks files ⟨[], 0, 0⟩
  have chosen : confirmReceive false obliging.looks .reject files =
      .ok (List.replicate files.length false) := by
    rw [confirmReceive, tallied]
    rfl
  rw [notCreatorRun] at failed
  simp only [obliging] at chosen failed
  rw [chosen] at failed
  simp only [if_true, filesToReceive_none] at failed
  cases failed

theorem totals_exact_iff (debug : Bool) (looks : Nat → Disk × Disk) (chosen : List Bool)
    (offer : List Protocol.FileMeta) :
    Refused (offer.map receivedFile) ∨
        TotalsExact debug looks chosen (offer.map receivedFile) ↔
      (offer.map fun meta_ => meta_.size.toNat).sum < 2 ^ 64 := by
  have total : totalOf (offer.map receivedFile) =
      (offer.map fun meta_ => meta_.size.toNat).sum := by
    rw [totalOf, List.map_map]
    rfl
  rw [or_iff_right (not_refused _), ← total]
  constructor
  · intro totals
    obtain ⟨newFiles, run⟩ := totals.shown
    exact tallyFiles_small debug looks _ _ _ (Nat.two_pow_pos 64) run
  · intro fits
    obtain ⟨newFiles, run⟩ := tallyFiles_exact debug looks (offer.map receivedFile) ⟨[], 0, 0⟩
      (Nat.le_refl 0) ((Nat.zero_add _).symm ▸ fits)
    refine ⟨⟨newFiles, ?_⟩, ?_⟩
    · rw [run, Nat.zero_add, Nat.zero_add]
    · have part := ((filesToReceive_sublist (offer.map receivedFile) chosen).map
        FileMeta.size).sum_le_sum (fun _ _ => Nat.zero_le _)
      have less : 0 + totalOf (filesToReceive (offer.map receivedFile) chosen) < 2 ^ 64 := by
        rw [Nat.zero_add]
        exact Nat.lt_of_le_of_lt part fits
      rw [sumSizes_exact debug _ 0 less, Nat.zero_add, totalOf]

/-! ## An offer of two large files -/

theorem short_path (name : UInt8) : [name].length < 2 ^ 64 := Nat.one_lt_two_pow (by omega)

def largeFile (name : UInt8) : Protocol.FileMeta :=
  ⟨⟨[name], short_path name⟩, UInt64.ofNat (2 ^ 64 - 1)⟩

def largeFiles : List Protocol.FileMeta := [largeFile 97, largeFile 98]

theorem largeFiles_length : largeFiles.length < 2 ^ 64 :=
  Nat.lt_of_lt_of_le (Nat.lt_succ_self 2) (by omega)

set_option maxRecDepth 4000 in
theorem largeFiles_encoded : ∃ bytes,
    (Protocol.Message.fileOffer (some ⟨largeFiles, largeFiles_length⟩)).toStdvec = .ok bytes ∧
      bytes.length < 2 ^ 32 := ⟨_, rfl, by decide⟩

/-- It is read like any other; a checked build panics on it, and the other one shows a total
that is less than one of the files. -/
theorem large_files_wrap :
    (∃ stream rest buffer, Protocol.deserializeFrom stream [] =
      (.ok (.fileOffer (some ⟨largeFiles, largeFiles_length⟩)), rest, buffer)) ∧
    (∀ looks, tallyFiles true looks (largeFiles.map receivedFile) ⟨[], 0, 0⟩ =
      .error .overflow) ∧
    (∀ looks tally, tallyFiles false looks (largeFiles.map receivedFile) ⟨[], 0, 0⟩ = .ok tally →
      tally.totalSize = 2 ^ 64 - 2) ∧
    ¬ ∀ debug looks chosen, Refused (largeFiles.map receivedFile) ∨
      TotalsExact debug looks chosen (largeFiles.map receivedFile) := by
  have size : (UInt64.ofNat (2 ^ 64 - 1)).toNat = 2 ^ 64 - 1 :=
    UInt64.toNat_ofNat_of_lt' (Nat.sub_lt (Nat.two_pow_pos 64) Nat.one_pos)
  have total : totalOf (largeFiles.map receivedFile) = 2 ^ 64 - 1 + (2 ^ 64 - 1) := by
    simp only [largeFiles, List.map_cons, List.map_nil, totalOf, receivedFile, largeFile, size,
      List.sum_cons, List.sum_nil, Nat.add_zero]
  have panics : ∀ looks, tallyFiles true looks (largeFiles.map receivedFile) ⟨[], 0, 0⟩ =
      .error .overflow := fun looks =>
    tallyFiles_overflow looks _ ⟨[], 0, 0⟩ (Nat.le_refl 0) (Nat.two_pow_pos 64)
      (by rw [total]; omega)
  refine ⟨?_, panics, ?_, ?_⟩
  · obtain ⟨bytes, encoded, short⟩ := largeFiles_encoded
    obtain ⟨rest, buffer, read, -⟩ := Protocol.deserializeFrom_frame _ bytes [] [] encoded short
      [toBe bytes.length ++ bytes] (by simp [List.flatten])
    exact ⟨_, rest, buffer, read⟩
  · intro looks tally run
    rw [tallyFiles_wraps looks _ ⟨[], 0, 0⟩ tally (Nat.two_pow_pos 64) run, total]
    rfl
  · intro all
    obtain ⟨newFiles, shown⟩ :=
      ((all true (fun _ => (fun _ => none, fun _ => none)) []).resolve_left (not_refused _)).shown
    rw [panics] at shown
    cases shown

end Gday.Chat
