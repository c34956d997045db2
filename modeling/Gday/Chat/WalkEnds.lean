import Gday.Chat.Walk

/-! # Where the walk ends

A link to a directory above makes the walk go round for ever, and one to a file elsewhere
makes it panic.  Both happen, in some order of the entries, wherever the walk can get
there at all; everywhere else it ends. -/
set_option autoImplicit false
namespace Gday.Chat

open Gday.Lib.AsyncStream (Panic)
open Gday.Lib.LexicalPath Gday.Lib.Files

/-- `Ok` or `Err`, and neither a panic nor a recursion that was not followed to its end. -/
def Answers (result : Except Stop (List LocalFileMeta)) : Prop :=
  result ≠ .error .deep ∧ ∀ panic, result ≠ .error (.panicked panic)

theorem answers_ok (files : List LocalFileMeta) : Answers (.ok files) := ⟨nofun, fun _ => nofun⟩

theorem answers_io : Answers (.error .io) := ⟨nofun, fun _ => nofun⟩

/-- Followed deep enough, the walk below all the arguments answers. -/
def Ends (tree : FileTree) (listing : Listing) (paths : List (List Component)) : Prop :=
  ∃ depth, Answers (getFileMetadatas tree listing depth paths [])

/-- An argument below which there is nothing that the walk could fail at. -/
def Clean (tree : FileTree) (listing : Listing) (path : List Component) : Prop :=
  ∃ place, tree.canonicalize path = some place ∧
    ∀ final, Reaches tree listing place final → ¬ Fails tree listing final

/-- All the files are below the folder of the argument, and no directory is reached again
from itself. -/
def Safe (tree : FileTree) (listing : Listing) (place : Place) : Prop :=
  (∀ final, Reaches tree listing place final → tree.Openable final →
    topPath place <+: canonical final) ∧
  ∀ dir, Reaches tree listing place dir →
    ¬ Relation.TransGen (Enters tree listing) dir dir

section Depths

variable {tree : FileTree} {listing : Listing} {top : List Component}

theorem visitEntries_mono {place : Place}
    {shallow deep : List Component → List LocalFileMeta → Except Stop (List LocalFileMeta)}
    (visits : ∀ path files, shallow path files ≠ .error .deep →
      deep path files = shallow path files)
    (entries : List (Option (List Char))) (files : List LocalFileMeta)
    (done : visitEntries shallow place entries files ≠ .error .deep) :
    visitEntries deep place entries files = visitEntries shallow place entries files := by
  induction entries generalizing files with
  | nil => rfl
  | cons entry entries ih =>
      cases entry with
      | none => rfl
      | some name =>
          rw [visitEntries] at done ⊢
          have reached : shallow (canonical place ++ [.normal name]) files ≠ .error .deep := by
            intro tooDeep
            rw [tooDeep] at done
            exact done rfl
          rw [visits _ _ reached, visitEntries]
          cases visit : shallow (canonical place ++ [.normal name]) files with
          | error stop => rfl
          | ok after =>
              rw [visit] at done
              exact ih after done

/-- Followed deeper, a walk that ended does the same. -/
theorem helper_mono (depth more : Nat) (path : List Component) (files : List LocalFileMeta)
    (done : getFileMetadatasHelper tree listing top depth path files ≠ .error .deep) :
    getFileMetadatasHelper tree listing top (depth + more) path files =
      getFileMetadatasHelper tree listing top depth path files := by
  induction depth generalizing path files with
  | zero => exact absurd rfl done
  | succ depth ih =>
      rw [Nat.succ_add]
      cases leads : tree.canonicalize path with
      | none => rw [helper_missing files leads, helper_missing files leads]
      | some place =>
          by_cases dir : tree.node place = some .dir
          · cases listed : listing.entries place with
            | none =>
                rw [helper_unread files leads dir listed, helper_unread files leads dir listed]
            | some entries =>
                rw [helper_dir files leads dir listed] at done ⊢
                rw [helper_dir files leads dir listed]
                exact visitEntries_mono ih entries files done
          · by_cases openable : tree.Openable place
            · by_cases inside : top <+: canonical place
              · rw [helper_inside files leads openable inside,
                  helper_inside files leads openable inside]
              · rw [helper_outside files leads openable inside,
                  helper_outside files leads openable inside]
            · rw [helper_other files leads dir openable, helper_other files leads dir openable]

theorem getFileMetadatas_mono (depth more : Nat) (paths : List (List Component))
    (files : List LocalFileMeta)
    (done : getFileMetadatas tree listing depth paths files ≠ .error .deep) :
    getFileMetadatas tree listing (depth + more) paths files =
      getFileMetadatas tree listing depth paths files := by
  induction paths generalizing files with
  | nil => rfl
  | cons path paths ih =>
      cases leads : tree.canonicalize path with
      | none => rw [getFileMetadatas, getFileMetadatas, leads]
      | some place =>
          have reached : getFileMetadatasHelper tree listing (topPath place) depth
              (canonical place) files ≠ .error .deep := fun tooDeep =>
            done (getFileMetadatas_stop paths leads tooDeep)
          have same := helper_mono depth more _ files reached
          cases walk : getFileMetadatasHelper tree listing (topPath place) depth
              (canonical place) files with
          | error stop =>
              rw [getFileMetadatas_stop paths leads walk,
                getFileMetadatas_stop paths leads (same.trans walk)]
          | ok after =>
              rw [getFileMetadatas_next paths leads walk] at done ⊢
              rw [getFileMetadatas_next paths leads (same.trans walk)]
              exact ih after done

theorem helper_answers_deeper {depth deeper : Nat} {path : List Component}
    {files : List LocalFileMeta} (le : depth ≤ deeper)
    (answers : Answers (getFileMetadatasHelper tree listing top depth path files)) :
    Answers (getFileMetadatasHelper tree listing top deeper path files) := by
  obtain ⟨more, same⟩ := Nat.exists_eq_add_of_le le
  rw [same, helper_mono depth more path files answers.1]
  exact answers

end Depths

/-! ## A safe walk ends -/

section Safety

variable {tree : FileTree} {listing : Listing} {top : List Component}

theorem visitEntries_answers {place : Place}
    {visit : List Component → List LocalFileMeta → Except Stop (List LocalFileMeta)}
    (entries : List (Option (List Char)))
    (visits : ∀ name, some name ∈ entries → ∀ files,
      Answers (visit (canonical place ++ [.normal name]) files)) (files : List LocalFileMeta) :
    Answers (visitEntries visit place entries files) := by
  induction entries generalizing files with
  | nil => exact answers_ok files
  | cons entry entries ih =>
      cases entry with
      | none => exact answers_io
      | some name =>
          rw [visitEntries]
          have answers := visits name List.mem_cons_self files
          cases visited : visit (canonical place ++ [.normal name]) files with
          | error stop =>
              rw [visited] at answers
              exact answers
          | ok after =>
              exact ih (fun other member => visits other (List.mem_cons_of_mem _ member)) after

/-- One depth for all the entries. -/
theorem entries_depth {place : Place} (entries : List (Option (List Char)))
    (each : ∀ name, some name ∈ entries → ∃ depth, ∀ files,
      Answers (getFileMetadatasHelper tree listing top depth
        (canonical place ++ [.normal name]) files)) :
    ∃ depth, ∀ name, some name ∈ entries → ∀ files,
      Answers (getFileMetadatasHelper tree listing top depth
        (canonical place ++ [.normal name]) files) := by
  induction entries with
  | nil => exact ⟨0, fun name member => absurd member List.not_mem_nil⟩
  | cons entry entries ih =>
      obtain ⟨depth, all⟩ := ih fun name member => each name (List.mem_cons_of_mem _ member)
      cases entry with
      | none =>
          refine ⟨depth, fun name member files => ?_⟩
          rcases List.mem_cons.mp member with same | member
          · cases same
          · exact all name member files
      | some first =>
          obtain ⟨own, answers⟩ := each first List.mem_cons_self
          refine ⟨max own depth, fun name member files => ?_⟩
          rcases List.mem_cons.mp member with same | member
          · rw [Option.some.inj same]
            exact helper_answers_deeper (Nat.le_max_left _ _) (answers files)
          · exact helper_answers_deeper (Nat.le_max_right _ _) (all name member files)

/-- By induction along the steps of the walk, none of which leads back. -/
theorem helper_answers (place : Place) (there : tree.node place ≠ none)
    (inside : ∀ final, Reaches tree listing place final → tree.Openable final →
      top <+: canonical final)
    (acyclic : ∀ dir, Reaches tree listing place dir →
      ¬ Relation.TransGen (Enters tree listing) dir dir)
    (path : List Component) (leads : tree.canonicalize path = some place) :
    ∃ depth, ∀ files, Answers (getFileMetadatasHelper tree listing top depth path files) := by
  have finite : {state | Reaches tree listing place state}.Finite := by
    apply tree.finite.subset
    intro state reached
    cases reached with
    | refl => exact there
    | tail before enters =>
        obtain ⟨name, -, -, opens⟩ := enters
        exact tree.there_of_canonicalize opens
  have all : ∀ path, tree.canonicalize path = some place → ∃ depth, ∀ files,
      Answers (getFileMetadatasHelper tree listing top depth path files) := by
    refine @acyclic_induction Place (Enters tree listing) place finite acyclic (fun place =>
      ∀ path, tree.canonicalize path = some place → ∃ depth, ∀ files,
        Answers (getFileMetadatasHelper tree listing top depth path files)) ?_
    intro state reached behind path leads
    by_cases dir : tree.node state = some .dir
    · cases listed : listing.entries state with
      | none =>
          refine ⟨1, fun files => ?_⟩
          rw [helper_unread files leads dir listed]
          exact answers_io
      | some entries =>
          have each : ∀ name, some name ∈ entries → ∃ depth, ∀ files,
              Answers (getFileMetadatasHelper tree listing top depth
                (canonical state ++ [.normal name]) files) := by
            intro name member
            rw [canonical_snoc]
            cases opens : tree.canonicalize (canonical (state ++ [name])) with
            | none =>
                refine ⟨1, fun files => ?_⟩
                rw [helper_missing files opens]
                exact answers_io
            | some next => exact behind next ⟨name, dir, ⟨entries, listed, member⟩, opens⟩ _ opens
          obtain ⟨depth, answers⟩ := entries_depth entries each
          refine ⟨depth + 1, fun files => ?_⟩
          rw [helper_dir files leads dir listed]
          exact visitEntries_answers entries answers files
    · refine ⟨1, fun files => ?_⟩
      by_cases openable : tree.Openable state
      · rw [helper_inside files leads openable (inside state reached openable)]
        exact answers_ok _
      · rw [helper_other files leads dir openable]
        exact answers_ok _
  exact all path leads

end Safety

/-- One argument after the other; behind one that is not clean nothing is walked. -/
theorem ends_of_safe {tree : FileTree} {listing : Listing} (paths : List (List Component))
    (safe : ∀ before path after, paths = before ++ path :: after →
      (∀ earlier ∈ before, Clean tree listing earlier) →
        ∀ place, tree.canonicalize path = some place → Safe tree listing place) :
    ∃ depth, ∀ files, Answers (getFileMetadatas tree listing depth paths files) := by
  induction paths with
  | nil => exact ⟨0, answers_ok⟩
  | cons path paths ih =>
      cases leads : tree.canonicalize path with
      | none =>
          refine ⟨0, fun files => ?_⟩
          rw [getFileMetadatas, leads]
          exact answers_io
      | some place =>
          obtain ⟨inside, acyclic⟩ :=
            safe [] path paths rfl (List.forall_mem_nil _) place leads
          obtain ⟨depth, answers⟩ := helper_answers place
            (tree.there_of_canonicalize leads) inside acyclic (canonical place)
            (canonicalize_again leads)
          have rest : ∃ later, Clean tree listing path →
              ∀ files, Answers (getFileMetadatas tree listing later paths files) := by
            by_cases clean : Clean tree listing path
            · obtain ⟨later, rest⟩ := ih fun before other after split cleans =>
                safe (path :: before) other after (by rw [split]; rfl)
                  (List.forall_mem_cons.mpr ⟨clean, cleans⟩)
              exact ⟨later, fun _ => rest⟩
            · exact ⟨0, fun isClean => absurd isClean clean⟩
          obtain ⟨later, rest⟩ := rest
          refine ⟨max depth later, fun files => ?_⟩
          have first := helper_answers_deeper (Nat.le_max_left depth later) (answers files)
          cases walk : getFileMetadatasHelper tree listing (topPath place) (max depth later)
              (canonical place) files with
          | error stop =>
              rw [walk] at first
              rw [getFileMetadatas_stop paths leads walk]
              exact first
          | ok middle =>
              obtain ⟨same, found, again, behind, -⟩ := helper_ok _ _ files middle walk
              rw [canonicalize_again leads, Option.some.injEq] at again
              rw [← again] at behind
              have behindFirst := rest ⟨place, leads, behind.clean⟩ middle
              obtain ⟨more, whole⟩ := Nat.exists_eq_add_of_le (Nat.le_max_right depth later)
              rw [getFileMetadatas_next paths leads walk, whole,
                getFileMetadatas_mono later more paths middle behindFirst.1]
              exact behindFirst

/-! ## An unsafe walk does not, in some order -/

section Orders

variable {tree : FileTree} {listing other : Listing}

theorem enters_reorder (same : listing.Reorders other) :
    Enters tree listing = Enters tree other := by
  funext place next
  apply propext
  rcases same.entries place with ⟨none_, otherNone⟩ | ⟨one, two, listed, otherListed, perm⟩
  · simp only [Enters, Opens, none_, otherNone]
  · simp only [Enters, Opens, listed, otherListed, Option.some.injEq, exists_eq_left', perm.mem_iff]

theorem fails_reorder (same : listing.Reorders other) (place : Place) :
    Fails tree listing place ↔ Fails tree other place := by
  rcases same.entries place with ⟨none_, otherNone⟩ | ⟨one, two, listed, otherListed, perm⟩
  · simp only [Fails, none_, otherNone]
  · simp only [Fails, listed, otherListed, Option.some.injEq, forall_eq', perm.mem_iff]

theorem clean_reorder (same : listing.Reorders other) (path : List Component) :
    Clean tree listing path ↔ Clean tree other path := by
  simp only [Clean, Reaches, enters_reorder same, fails_reorder same]

theorem safe_reorder (same : listing.Reorders other) (place : Place) :
    Safe tree listing place ↔ Safe tree other place := by
  simp only [Safe, Reaches, enters_reorder same]

end Orders

section Errors

variable {tree : FileTree} {listing : Listing} {top : List Component}

theorem visitEntries_error {place : Place} {stop : Stop}
    {visit : List Component → List LocalFileMeta → Except Stop (List LocalFileMeta)}
    (entries : List (Option (List Char))) (files : List LocalFileMeta)
    (failed : visitEntries visit place entries files = .error stop) :
    stop = .io ∧ none ∈ entries ∨ ∃ name before, some name ∈ entries ∧
      visit (canonical place ++ [.normal name]) before = .error stop := by
  induction entries generalizing files with
  | nil => cases failed
  | cons entry entries ih =>
      cases entry with
      | none => exact Or.inl ⟨(Except.error.inj failed).symm, List.mem_cons_self⟩
      | some name =>
          rw [visitEntries] at failed
          cases visited : visit (canonical place ++ [.normal name]) files with
          | error other =>
              rw [visited, Except.error.injEq] at failed
              exact Or.inr ⟨name, files, List.mem_cons_self, by rw [visited, failed]⟩
          | ok after =>
              rw [visited] at failed
              rcases ih after failed with ⟨same, member⟩ | ⟨later, before, member, stopped⟩
              · exact Or.inl ⟨same, List.mem_cons_of_mem _ member⟩
              · exact Or.inr ⟨later, before, List.mem_cons_of_mem _ member, stopped⟩

/-- An error of the file system has its cause in what the walk can reach. -/
theorem helper_error (depth : Nat) (path : List Component) (files : List LocalFileMeta)
    (stop : Stop)
    (failed : getFileMetadatasHelper tree listing top depth path files = .error stop) :
    ¬ Answers (.error stop) ∨ tree.canonicalize path = none ∨
      ∃ place final, tree.canonicalize path = some place ∧ Reaches tree listing place final ∧
        Fails tree listing final := by
  induction depth generalizing path files with
  | zero => exact Or.inl fun answers => answers.1 failed.symm
  | succ depth ih =>
      cases leads : tree.canonicalize path with
      | none => exact Or.inr (Or.inl rfl)
      | some place =>
          by_cases dir : tree.node place = some .dir
          · cases listed : listing.entries place with
            | none =>
                refine Or.inr (Or.inr ⟨place, place, rfl, .refl, dir, fun entries there => ?_⟩)
                rw [listed] at there
                cases there
            | some entries =>
                rw [helper_dir files leads dir listed] at failed
                have fails : (none ∈ entries ∨ ∃ name, some name ∈ entries ∧
                    tree.canonicalize (canonical (place ++ [name])) = none) →
                      Fails tree listing place := by
                  intro broken
                  refine ⟨dir, fun others there => ?_⟩
                  rw [listed, Option.some.injEq] at there
                  rw [← there]
                  exact broken
                rcases visitEntries_error entries files failed with
                  ⟨-, broken⟩ | ⟨name, before, member, stopped⟩
                · exact Or.inr (Or.inr ⟨place, place, rfl, .refl, fails (Or.inl broken)⟩)
                · rw [canonical_snoc] at stopped
                  rcases ih _ before stopped with
                    unanswered | nowhere | ⟨next, final, opens, reaches, failing⟩
                  · exact Or.inl unanswered
                  · exact Or.inr (Or.inr ⟨place, place, rfl, .refl,
                      fails (Or.inr ⟨name, member, nowhere⟩)⟩)
                  · exact Or.inr (Or.inr ⟨place, final, rfl,
                      .head ⟨name, dir, ⟨entries, listed, member⟩, opens⟩ reaches, failing⟩)
          · by_cases openable : tree.Openable place
            · by_cases inside : top <+: canonical place
              · rw [helper_inside files leads openable inside] at failed
                cases failed
              · rw [helper_outside files leads openable inside, Except.error.injEq] at failed
                rw [← failed]
                exact Or.inl fun answers => answers.2 .unwrap rfl
            · rw [helper_other files leads dir openable] at failed
              cases failed

theorem getFileMetadatas_error (depth : Nat) (paths : List (List Component))
    (files : List LocalFileMeta) (stop : Stop)
    (failed : getFileMetadatas tree listing depth paths files = .error stop) :
    ¬ Answers (.error stop) ∨ ∃ path ∈ paths, ¬ Clean tree listing path := by
  induction paths generalizing files with
  | nil => cases failed
  | cons path paths ih =>
      cases leads : tree.canonicalize path with
      | none =>
          refine Or.inr ⟨path, List.mem_cons_self, ?_⟩
          rintro ⟨place, there, -⟩
          rw [leads] at there
          cases there
      | some place =>
          cases walk : getFileMetadatasHelper tree listing (topPath place) depth
              (canonical place) files with
          | error other =>
              rw [getFileMetadatas_stop paths leads walk, Except.error.injEq] at failed
              rw [failed] at walk
              rcases helper_error depth _ files stop walk with
                unanswered | nowhere | ⟨same, final, again, reaches, fails⟩
              · exact Or.inl unanswered
              · rw [canonicalize_again leads] at nowhere
                cases nowhere
              · refine Or.inr ⟨path, List.mem_cons_self, ?_⟩
                rintro ⟨start, there, fine⟩
                rw [canonicalize_again leads, Option.some.injEq] at again
                rw [leads, Option.some.injEq] at there
                rw [← again, there] at reaches
                exact fine final reaches fails
          | ok middle =>
              rw [getFileMetadatas_next paths leads walk] at failed
              rcases ih middle failed with unanswered | ⟨other, member, unclean⟩
              · exact Or.inl unanswered
              · exact Or.inr ⟨other, List.mem_cons_of_mem _ member, unclean⟩

/-- From here the walk can get to a file that is elsewhere or to a way round. -/
def Traps (tree : FileTree) (listing : Listing) (top : List Component) (place : Place) : Prop :=
  ∃ final, Reaches tree listing place final ∧
    (tree.Openable final ∧ ¬ top <+: canonical final ∨
      Relation.TransGen (Enters tree listing) final final)

theorem Traps.next {place : Place} (traps : Traps tree listing top place) :
    tree.Openable place ∧ ¬ top <+: canonical place ∨
      ∃ name next, Opens tree listing place name next ∧ Traps tree listing top next := by
  obtain ⟨final, reaches, bad⟩ := traps
  cases reaches using Relation.ReflTransGen.head_induction_on with
  | refl =>
      rcases bad with outside | round
      · exact Or.inl outside
      · obtain ⟨next, ⟨name, opens⟩, back⟩ := Relation.TransGen.head'_iff.mp round
        exact Or.inr ⟨name, next, opens, place, back, Or.inr round⟩
  | head enters later =>
      obtain ⟨name, opens⟩ := enters
      exact Or.inr ⟨name, _, opens, final, later, bad⟩

/-- Some entry to go to first, at every place. -/
theorem exists_first (tree : FileTree) (listing : Listing) (top : List Component) :
    ∃ first : Place → Option (List Char), ∀ place, Traps tree listing top place →
      tree.Openable place ∧ ¬ top <+: canonical place ∨
        ∃ name next, first place = some name ∧ Opens tree listing place name next ∧
          Traps tree listing top next := by
  have each : ∀ place, ∃ entry : Option (List Char), Traps tree listing top place →
      tree.Openable place ∧ ¬ top <+: canonical place ∨
        ∃ name next, entry = some name ∧ Opens tree listing place name next ∧
          Traps tree listing top next := by
    intro place
    by_cases traps : Traps tree listing top place
    · rcases traps.next with outside | ⟨name, next, opens, later⟩
      · exact ⟨none, fun _ => Or.inl outside⟩
      · exact ⟨some name, fun _ => Or.inr ⟨name, next, rfl, opens, later⟩⟩
    · exact ⟨none, fun isTrap => absurd isTrap traps⟩
  choose first goes using each
  exact ⟨first, goes⟩

/-- The walk that goes there first does not answer, however deep it is followed. -/
theorem trapped (first : Place → Option (List Char))
    (goes : ∀ place, Traps tree listing top place →
      tree.Openable place ∧ ¬ top <+: canonical place ∨
        ∃ name next, first place = some name ∧ Opens tree listing place name next ∧
          Traps tree listing top next)
    (depth : Nat) (place : Place) (path : List Component) (files : List LocalFileMeta)
    (traps : Traps tree listing top place) (leads : tree.canonicalize path = some place) :
    ¬ Answers (getFileMetadatasHelper tree (listing.withFirst first) top depth path files) := by
  induction depth generalizing place path files with
  | zero => exact fun answers => answers.1 rfl
  | succ depth ih =>
      rcases goes place traps with ⟨openable, outside⟩ | ⟨name, next, picks, opens, later⟩
      · rw [helper_outside files leads openable outside]
        exact fun answers => answers.2 .unwrap rfl
      · obtain ⟨dir, ⟨entries, listed, member⟩, opened⟩ := opens
        have ordered : (listing.withFirst first).entries place =
            some (some name :: entries.erase (some name)) := by
          simp only [Listing.withFirst, listed, Option.map_some, picks, if_pos member]
        rw [helper_dir files leads dir ordered, visitEntries, canonical_snoc]
        have unanswered := ih next _ files later opened
        cases visit : getFileMetadatasHelper tree (listing.withFirst first) top depth
            (canonical (place ++ [name])) files with
        | error stop =>
            rw [visit] at unanswered
            exact unanswered
        | ok after =>
            rw [visit] at unanswered
            exact absurd (answers_ok after) unanswered

theorem traps_of_not_safe {place : Place} (unsafe_ : ¬ Safe tree listing place) :
    Traps tree listing (topPath place) place := by
  by_contra free
  refine unsafe_ ⟨fun final reaches openable => ?_, fun dir reaches round => ?_⟩
  · by_contra outside
    exact free ⟨final, reaches, Or.inl ⟨openable, outside⟩⟩
  · exact free ⟨dir, reaches, Or.inr round⟩

end Errors

/-- Behind clean arguments the walk gets to the one that traps it. -/
theorem not_ends {tree : FileTree} {listing : Listing} {path : List Component} {place : Place}
    (before after : List (List Component)) (clean : ∀ earlier ∈ before, Clean tree listing earlier)
    (stuck : ∀ depth files, ¬ Answers (getFileMetadatasHelper tree listing (topPath place) depth
      (canonical place) files))
    (leads : tree.canonicalize path = some place) (depth : Nat) (files : List LocalFileMeta) :
    ¬ Answers (getFileMetadatas tree listing depth (before ++ path :: after) files) := by
  induction before generalizing files with
  | nil =>
      have unanswered := stuck depth files
      cases walk : getFileMetadatasHelper tree listing (topPath place) depth (canonical place)
          files with
      | error stop =>
          rw [List.nil_append, getFileMetadatas_stop after leads walk]
          rw [walk] at unanswered
          exact unanswered
      | ok middle =>
          rw [walk] at unanswered
          exact absurd (answers_ok middle) unanswered
  | cons first before ih =>
      obtain ⟨start, firstLeads, fine⟩ := clean first List.mem_cons_self
      rw [List.cons_append]
      cases walk : getFileMetadatasHelper tree listing (topPath start) depth (canonical start)
          files with
      | error stop =>
          rw [getFileMetadatas_stop _ firstLeads walk]
          rcases helper_error depth _ files stop walk with
            unanswered | nowhere | ⟨same, final, again, reaches, fails⟩
          · exact unanswered
          · rw [canonicalize_again firstLeads] at nowhere
            cases nowhere
          · rw [canonicalize_again firstLeads, Option.some.injEq] at again
            rw [← again] at reaches
            exact absurd fails (fine final reaches)
      | ok middle =>
          rw [getFileMetadatas_next _ firstLeads walk]
          exact ih (fun other member => clean other (List.mem_cons_of_mem _ member)) middle

/-- In every order of the entries the walk answers, exactly where each argument that it can
get to is safe. -/
theorem ends_iff (tree : FileTree) (listing : Listing) (paths : List (List Component)) :
    (∀ other, listing.Reorders other → Ends tree other paths) ↔
      ∀ before path after, paths = before ++ path :: after →
        (∀ earlier ∈ before, Clean tree listing earlier) →
          ∀ place, tree.canonicalize path = some place → Safe tree listing place := by
  constructor
  · intro ends before path after split clean place leads
    by_contra unsafe_
    obtain ⟨first, goes⟩ := exists_first tree listing (topPath place)
    have same := listing.reorders_withFirst first
    obtain ⟨depth, answers⟩ := ends _ same
    rw [split] at answers
    refine not_ends before after (fun earlier member => ?_) (fun depth files => ?_) leads depth []
      answers
    · exact (clean_reorder same earlier).mp (clean earlier member)
    · exact trapped first goes depth place _ files (traps_of_not_safe unsafe_)
        (canonicalize_again leads)
  · intro safe other same
    obtain ⟨depth, answers⟩ := ends_of_safe paths fun before path after split clean place leads =>
      (safe_reorder same place).mp (safe before path after split
        (fun earlier member => (clean_reorder same earlier).mpr (clean earlier member)) place leads)
    exact ⟨depth, answers []⟩

/-- `/a/up` is a link to `/a`, and `/b/c/out` one to the file `/f`. -/
def linkedNodes : List (Place × Node) :=
  [([], .dir), ([['a']], .dir), ([['a'], ['u', 'p']], .link [.rootDir, .normal ['a']]),
    ([['b']], .dir), ([['b'], ['c']], .dir),
    ([['b'], ['c'], ['o', 'u', 't']], .link [.rootDir, .normal ['f']]), ([['f']], .file 1 true)]

theorem linkedNodes_isTree : IsTree linkedNodes := by decide

def linkedTree : FileTree := .ofNodes linkedNodes linkedNodes_isTree 40

def linkedNames : List (Place × List (List Char)) :=
  [([], [['a'], ['b'], ['f']]), ([['a']], [['u', 'p']]), ([['b']], [['c']]),
    ([['b'], ['c']], [['o', 'u', 't']])]

theorem linkedNames_once : ∀ entry ∈ linkedNames, entry.2.Nodup := by decide

def linkedListing : Listing := .ofNames linkedNames linkedNames_once

/-- The walk below `/a` never ends, and the one below `/b/c` panics. -/
theorem links_not_survived :
    ¬ Ends linkedTree linkedListing [[.rootDir, .normal ['a']]] ∧
      getFileMetadatas linkedTree linkedListing 2 [[.rootDir, .normal ['b'], .normal ['c']]] [] =
        .error (.panicked .unwrap) := by
  refine ⟨?_, by decide⟩
  have leads : linkedTree.canonicalize (canonical [['a']]) = some [['a']] := by decide
  have dir : linkedTree.node [['a']] = some .dir := by decide
  have listed : linkedListing.entries [['a']] = some [some ['u', 'p']] := by decide
  have opens : linkedTree.canonicalize (canonical ([['a']] ++ [['u', 'p']])) = some [['a']] := by
    decide
  have round : ∀ depth path files, linkedTree.canonicalize path = some [['a']] →
      getFileMetadatasHelper linkedTree linkedListing (topPath [['a']]) depth path files =
        .error .deep := by
    intro depth
    induction depth with
    | zero => exact fun path files _ => rfl
    | succ depth ih =>
        intro path files same
        rw [helper_dir files same dir listed, visitEntries, canonical_snoc, ih _ files opens]
  rintro ⟨depth, answers⟩
  refine not_ends [] [] (List.forall_mem_nil _) (fun deep files => ?_) leads depth [] answers
  rw [round deep _ files leads]
  exact fun isAnswer => isAnswer.1 rfl

end Gday.Chat
