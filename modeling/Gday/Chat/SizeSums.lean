import Gday.Chat.FileTransfer

/-! # Sums of sizes

Sizes are added in two loops: the one of `confirm_receive`, which keeps a total of all the
files beside one of the new ones, and the plain sum before a transfer.  A sum that is no
`u64` stops a checked build and wraps in the other one. -/
set_option autoImplicit false
namespace Gday.Chat

/-! ## One addition -/

theorem addU64_fits (debug : Bool) (left right : Nat) (fits : left + right < 2 ^ 64) :
    addU64 debug left right = .ok (left + right) := if_pos fits

theorem addU64_overflow (left right : Nat) (tooMuch : 2 ^ 64 ≤ left + right) :
    addU64 true left right = .error .overflow := if_neg (Nat.not_lt_of_le tooMuch)

theorem addU64_release (left right : Nat) :
    addU64 false left right = .ok ((left + right) % 2 ^ 64) := by
  rw [addU64]
  split
  · rw [Nat.mod_eq_of_lt (by assumption)]
  · rfl

theorem addU64_small (debug : Bool) (left right sum : Nat)
    (added : addU64 debug left right = .ok sum) : sum < 2 ^ 64 := by
  rw [addU64] at added
  split at added
  · cases added
    assumption
  · split at added
    · cases added
    · cases added
      exact Nat.mod_lt _ (Nat.two_pow_pos 64)

/-! ## The plain sum -/

theorem sumSizes_exact (debug : Bool) (files : List FileMeta) (sum : Nat)
    (fits : sum + (files.map FileMeta.size).sum < 2 ^ 64) :
    sumSizes debug files sum = .ok (sum + (files.map FileMeta.size).sum) := by
  induction files generalizing sum with
  | nil => rfl
  | cons meta_ files ih =>
      rw [List.map_cons, List.sum_cons] at fits ⊢
      rw [sumSizes, addU64_fits debug sum meta_.size (by omega)]
      exact (ih (sum + meta_.size) (by omega)).trans (by rw [Nat.add_assoc])

theorem sumSizes_release (files : List FileMeta) (sum : Nat) :
    ∃ total, sumSizes false files sum = .ok total := by
  induction files generalizing sum with
  | nil => exact ⟨sum, rfl⟩
  | cons meta_ files ih =>
      rw [sumSizes, addU64_release]
      exact ih _

/-- No sum of sizes overflows where the whole one does not. -/
theorem sumSizes_ok (debug : Bool) (files : List FileMeta) (sum : Nat)
    (fits : debug = true → sum + (files.map FileMeta.size).sum < 2 ^ 64) :
    ∃ total, sumSizes debug files sum = .ok total := by
  cases debug with
  | true => exact ⟨_, sumSizes_exact true files sum (fits rfl)⟩
  | false => exact sumSizes_release files sum

theorem sumSizes_overflow (files : List FileMeta) (sum : Nat)
    (tooMuch : 2 ^ 64 ≤ sum + (files.map FileMeta.size).sum) (fits : sum < 2 ^ 64) :
    sumSizes true files sum = .error .overflow := by
  induction files generalizing sum with
  | nil => exact absurd fits (Nat.not_lt_of_le tooMuch)
  | cons meta_ files ih =>
      rw [List.map_cons, List.sum_cons] at tooMuch
      rw [sumSizes]
      by_cases small : sum + meta_.size < 2 ^ 64
      · rw [addU64_fits true sum meta_.size small]
        exact ih _ (by omega) small
      · rw [addU64_overflow sum meta_.size (Nat.le_of_not_lt small)]
        rfl

/-! ## The loop of the dialog -/

/-- What a round that returned has done: the second look counts only where the first one
found nothing. -/
theorem tallyFile_ok {debug : Bool} {first second : Disk} {tally next : Tally} {meta_ : FileMeta}
    (run : tallyFile debug first second tally meta_ = .ok next) :
    addU64 debug tally.totalSize meta_.size = .ok next.totalSize ∧
      next.newFiles = tally.newFiles ++
        if fileExists first meta_ then [] else [!fileExists second meta_] := by
  unfold tallyFile at run
  cases total : addU64 debug tally.totalSize meta_.size with
  | error panic =>
      rw [total] at run
      cases run
  | ok totalSize =>
      by_cases found : fileExists first meta_ = true
      · simp only [total, found, if_true, bind, Except.bind, pure, Except.pure] at run
        cases run
        exact ⟨rfl, by rw [if_pos found, List.append_nil]⟩
      · cases new : addU64 debug tally.newSize meta_.size with
        | error panic =>
            simp only [total, found, new, bind, Except.bind, pure, Except.pure, if_false,
              Bool.false_eq_true] at run
            cases run
        | ok newSize =>
            simp only [total, found, new, bind, Except.bind, pure, Except.pure, if_false,
              Bool.false_eq_true] at run
            cases run
            exact ⟨rfl, by rw [if_neg found]⟩

theorem tallyFiles_cons_ok {debug : Bool} {looks : Nat → Disk × Disk} {meta_ : FileMeta}
    {files : List FileMeta} {tally after : Tally}
    (run : tallyFiles debug looks (meta_ :: files) tally = .ok after) :
    ∃ next, tallyFile debug (looks 0).1 (looks 0).2 tally meta_ = .ok next ∧
      tallyFiles debug (fun k => looks (k + 1)) files next = .ok after := by
  rw [tallyFiles] at run
  cases first : tallyFile debug (looks 0).1 (looks 0).2 tally meta_ with
  | error panic =>
      rw [first] at run
      cases run
  | ok next =>
      rw [first] at run
      exact ⟨next, rfl, run⟩

theorem tallyFiles_release (looks : Nat → Disk × Disk) (files : List FileMeta) (tally : Tally) :
    ∃ last, tallyFiles false looks files tally = .ok last := by
  induction files generalizing looks tally with
  | nil => exact ⟨tally, rfl⟩
  | cons meta_ files ih =>
      rw [tallyFiles, tallyFile, addU64_release, addU64_release]
      by_cases known : fileExists (looks 0).1 meta_ = true
      · simp only [known, if_true, bind, Except.bind, pure, Except.pure]
        exact ih _ _
      · simp only [known, if_false, bind, Except.bind, pure, Except.pure, Bool.false_eq_true]
        exact ih _ _

/-! ## The files that are accepted -/

/-- The loops of both sides pass over what was not accepted. -/
theorem accepted_sublist {File : Type} (files : List File) (chosen : List Bool) :
    (((files.zip chosen).filter fun pair => pair.2).map Prod.fst).Sublist files := by
  induction files generalizing chosen with
  | nil => exact List.Sublist.slnil
  | cons file files ih =>
      cases chosen with
      | nil => exact List.nil_sublist _
      | cons accepted chosen =>
          have rest := ih chosen
          cases accepted with
          | false => exact rest.cons file
          | true => exact rest.cons_cons file

/-- As many as there are entries, if these are all true. -/
theorem accepted_replicate {File : Type} (files : List File) (count : Nat) :
    ((files.zip (List.replicate count true)).filter fun pair => pair.2).map Prod.fst =
      files.take count := by
  induction files generalizing count with
  | nil => simp
  | cons file files ih =>
      cases count with
      | zero => simp
      | succ count =>
          rw [List.replicate_succ, List.zip_cons_cons, List.filter_cons_of_pos rfl, List.map_cons,
            ih, List.take_succ_cons]

theorem filesToReceive_sublist (files : List FileMeta) (chosen : List Bool) :
    (filesToReceive files chosen).Sublist files := accepted_sublist files chosen

theorem filesToReceive_replicate (files : List FileMeta) (count : Nat) :
    filesToReceive files (List.replicate count true) = files.take count :=
  accepted_replicate files count

end Gday.Chat
