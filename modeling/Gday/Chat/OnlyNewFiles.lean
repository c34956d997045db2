import Gday.Chat.SizeSums

/-! # What the answer "2" selects

The vector has an entry for every file that is new, and none for the others, so that its
entries stand for the first files of the offer instead of for the new ones. -/
set_option autoImplicit false
namespace Gday.Chat

/-- Not there, or with another size. -/
def isNew (disk : Disk) (meta_ : FileMeta) : Bool := !fileExists disk meta_

/-- One entry a file, true for the new ones, so that these are received. -/
structure Selects (disk : Disk) (files : List FileMeta) (chosen : List Bool) : Prop where
  asLong : chosen.length = files.length
  entries : ∀ (i : Nat) (meta_ : FileMeta), files[i]? = some meta_ →
    chosen[i]? = some (isNew disk meta_)
  received : filesToReceive files chosen = files.filter (isNew disk)

/-! ## The vector -/

theorem tallyFile_newFiles (debug : Bool) (disk : Disk) (tally next : Tally) (meta_ : FileMeta)
    (run : tallyFile debug disk disk tally meta_ = .ok next) :
    next.newFiles = tally.newFiles ++ List.replicate (if isNew disk meta_ then 1 else 0) true := by
  rw [(tallyFile_ok run).2, isNew]
  cases fileExists disk meta_ with
  | true => rfl
  | false => rfl

theorem tallyFiles_newFiles (debug : Bool) (disk : Disk) (files : List FileMeta)
    (tally after : Tally)
    (run : tallyFiles debug (fun _ => (disk, disk)) files tally = .ok after) :
    after.newFiles = tally.newFiles ++ List.replicate (files.countP (isNew disk)) true := by
  induction files generalizing tally with
  | nil =>
      rw [tallyFiles] at run
      cases run
      simp
  | cons meta_ files ih =>
      obtain ⟨next, first, rest⟩ := tallyFiles_cons_ok run
      rw [ih next rest, tallyFile_newFiles debug disk tally next meta_ first, List.append_assoc,
        List.replicate_append_replicate, List.countP_cons, Nat.add_comm]

theorem confirmReceive_onlyNew (debug : Bool) (disk : Disk) (files : List FileMeta)
    (chosen : List Bool)
    (returned : confirmReceive debug (fun _ => (disk, disk)) .onlyNew files = .ok chosen) :
    chosen = List.replicate (files.countP (isNew disk)) true := by
  unfold confirmReceive at returned
  cases tallied : tallyFiles debug (fun _ => (disk, disk)) files ⟨[], 0, 0⟩ with
  | error panic =>
      rw [tallied] at returned
      cases returned
  | ok after =>
      rw [tallied] at returned
      cases returned
      exact tallyFiles_newFiles debug disk files ⟨[], 0, 0⟩ after tallied

/-! ## The files it stands for -/

/-- The first files are the new ones where no new file comes after another one. -/
theorem take_new_iff (disk : Disk) (files : List FileMeta) :
    files.take (files.countP (isNew disk)) = files.filter (isNew disk) ↔
      files.Pairwise fun earlier later => isNew disk later = true → isNew disk earlier = true := by
  induction files with
  | nil => simp
  | cons meta_ files ih =>
      rw [List.pairwise_cons]
      cases new : isNew disk meta_ with
      | true =>
          rw [List.countP_cons_of_pos new, List.take_succ_cons, List.filter_cons_of_pos new,
            List.cons.injEq, ih]
          simp
      | false =>
          have old : ¬ isNew disk meta_ = true := by rw [new]; exact Bool.false_ne_true
          rw [List.countP_cons_of_neg old, List.filter_cons_of_neg old]
          cases count : files.countP (isNew disk) with
          | zero =>
              have noneNew := List.countP_eq_zero.mp count
              rw [List.filter_eq_nil_iff.mpr noneNew, List.take_zero]
              refine iff_of_true rfl ⟨?_, ?_⟩
              · intro later member isNew_
                exact absurd isNew_ (noneNew later member)
              · apply List.pairwise_of_forall_mem_list
                intro earlier _ later member isNew_
                exact absurd isNew_ (noneNew later member)
          | succ count =>
              have positive : 0 < files.countP (isNew disk) := by omega
              obtain ⟨later, member, isNew_⟩ := List.countP_pos_iff.mp positive
              apply iff_of_false
              · intro same
                have first : meta_ ∈ files.filter (isNew disk) := by
                  rw [← same, List.take_succ_cons]
                  exact List.mem_cons_self
                exact old (List.mem_filter.mp first).2
              · rintro ⟨newFirst, -⟩
                exact absurd (newFirst later member isNew_) Bool.false_ne_true

/-- The vector selects the new files exactly where all the files are new; and those that
are received are the new ones exactly where the new ones come first. -/
theorem onlyNew_selects_iff (debug : Bool) (disk : Disk) (files : List FileMeta)
    (chosen : List Bool)
    (returned : confirmReceive debug (fun _ => (disk, disk)) .onlyNew files = .ok chosen) :
    (Selects disk files chosen ↔ ∀ meta_ ∈ files, isNew disk meta_ = true) ∧
      (filesToReceive files chosen = files.filter (isNew disk) ↔
        files.Pairwise fun earlier later =>
          isNew disk later = true → isNew disk earlier = true) := by
  have vector := confirmReceive_onlyNew debug disk files chosen returned
  subst vector
  rw [filesToReceive_replicate]
  refine ⟨⟨?_, ?_⟩, take_new_iff disk files⟩
  · intro selects
    have all := selects.asLong
    rw [List.length_replicate] at all
    exact List.countP_eq_length.mp all
  · intro allNew
    have all := List.countP_eq_length.mpr allNew
    rw [all]
    refine ⟨List.length_replicate, ?_, ?_⟩
    · intro i meta_ there
      have inside : i < files.length := (List.getElem?_eq_some_iff.mp there).1
      rw [List.getElem?_replicate_of_lt inside, allNew meta_ (List.mem_of_getElem? there)]
    · rw [filesToReceive_replicate, List.take_length, List.filter_eq_self.mpr allNew]

/-- Of two files the first is there already. -/
def oneOldFile : List FileMeta := [⟨['a'], 1⟩, ⟨['b'], 2⟩]

def diskWithA : Disk := fun path => if path = receivedFileFolder ++ ['a'] then some 1 else none

/-- The vector has one entry, and the file that is received is the old one. -/
theorem onlyNew_selects_old :
    confirmReceive true (fun _ => (diskWithA, diskWithA)) .onlyNew oneOldFile = .ok [true] ∧
      ¬ Selects diskWithA oneOldFile [true] ∧
        filesToReceive oneOldFile [true] = [⟨['a'], 1⟩] := by
  refine ⟨by decide, ?_, by decide⟩
  intro selects
  exact absurd selects.asLong (by decide)

/-- On an empty disk the answer selects both. -/
theorem onlyNew_selects_both : Selects (fun _ => none) oneOldFile [true, true] :=
  (onlyNew_selects_iff true (fun _ => none) oneOldFile [true, true] (by decide)).1.mpr
    (by decide)

end Gday.Chat
