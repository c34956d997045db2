import Gday.Chat.DownloadFolder
import Gday.Chat.Transfer

/-! # Download folders

A file system grants a run where it makes the directories that are asked for, opens the files and
takes what is written.  On a tree of files and directories it does so unless something is in the
way: a file where a directory has to be, or a directory where a file has to be. -/
set_option autoImplicit false
namespace Gday.Chat

open Gday.Lib.LexicalPath

/-! ## Granted runs -/

/-- The calls for one file succeed. -/
structure FileSystem.GrantsFile (fileSystem : FileSystem) (meta_ : FileMeta)
    (done : List Effect) : Prop where
  mkdir : (createDirAll fileSystem (directory meta_).reverse done).1 = true
  create : fileSystem.create (createDirAll fileSystem (directory meta_).reverse done).2
    (destination meta_) = true
  write : fileSystem.write ((createDirAll fileSystem (directory meta_).reverse done).2 ++
    [.create (destination meta_)]) (destination meta_) = true

/-- What is done once the file is there. -/
def FileSystem.filled (fileSystem : FileSystem) (meta_ : FileMeta) (content : List UInt8)
    (done : List Effect) : List Effect :=
  (createDirAll fileSystem (directory meta_).reverse done).2 ++ [.create (destination meta_)] ++
    [.write (destination meta_) content]

/-- The calls for all files succeed, in the run that gives each of them its content. -/
def FileSystem.Grants (fileSystem : FileSystem) (content : LocalFileMeta → List UInt8) :
    List LocalFileMeta → List Effect → Prop
  | [], _ => True
  | file :: files, done =>
      fileSystem.GrantsFile file.public_ done ∧
        fileSystem.Grants content files (fileSystem.filled file.public_ (content file) done)

instance (fileSystem : FileSystem) (meta_ : FileMeta) (done : List Effect) :
    Decidable (fileSystem.GrantsFile meta_ done) :=
  decidable_of_iff (_ ∧ _ ∧ _)
    ⟨fun ⟨mkdir, create, write⟩ => ⟨mkdir, create, write⟩,
      fun grants => ⟨grants.mkdir, grants.create, grants.write⟩⟩

instance FileSystem.decidableGrants (fileSystem : FileSystem)
    (content : LocalFileMeta → List UInt8) :
    ∀ files done, Decidable (fileSystem.Grants content files done)
  | [], _ => instDecidableTrue
  | file :: files, done =>
      let _ := decidableGrants fileSystem content files
        (fileSystem.filled file.public_ (content file) done)
      inferInstanceAs (Decidable (_ ∧ _))

theorem FileSystem.Grants.take {fileSystem : FileSystem} {content : LocalFileMeta → List UInt8}
    {files : List LocalFileMeta} {done : List Effect}
    (grants : fileSystem.Grants content files done) (count : Nat) :
    fileSystem.Grants content (files.take count) done := by
  induction files generalizing count done with
  | nil =>
      rw [List.take_nil]
      exact grants
  | cons file files ih =>
      cases count with
      | zero => exact trivial
      | succ count => exact ⟨grants.1, ih grants.2 count⟩

/-! ## Trees -/

inductive Kind where
  | file
  | dir
  deriving DecidableEq, Repr

section Trees

variable {Place : Type} [DecidableEq Place] (place : List Component → Place)

/-- What is where after one effect; what is asked for in vain changes nothing. -/
def Effect.grow (tree : Place → Option Kind) : Effect → Place → Option Kind
  | .mkdir path =>
      if tree (place path.dropLast) = some .dir ∧ tree (place path) = none then
        Function.update tree (place path) (some .dir)
      else tree
  | .create path =>
      if tree (place path.dropLast) = some .dir ∧ tree (place path) ≠ some .dir then
        Function.update tree (place path) (some .file)
      else tree
  | .write _ _ => tree

def grown (start : Place → Option Kind) (effects : List Effect) : Place → Option Kind :=
  effects.foldl (Effect.grow place) start

/-- A tree on which nothing else fails, where `place` says what a path leads to.  Making a
directory is refused with `NotFound` where the one above it is missing. -/
def treeFileSystem (start : Place → Option Kind) : FileSystem where
  mkdir done path :=
    let tree := grown place start done
    match tree (place path.dropLast), tree (place path) with
    | some .dir, none => .created
    | some .dir, some kind => .refused false (kind = .dir)
    | some .file, _ => .refused false false
    | none, _ =>
        .refused (path.dropLast.inits.all fun above => tree (place above) ≠ some .file) false
  create done path :=
    let tree := grown place start done
    tree (place path.dropLast) = some .dir && tree (place path) ≠ some .dir
  write done path := grown place start done (place path) = some .file

/-- Nothing is in the way of files at these paths. -/
structure Free (tree : Place → Option Kind) (paths : List (List Component)) : Prop where
  working : tree (place []) = some .dir
  root : tree (place [.rootDir]) = some .dir
  noFile : ∀ path ∈ paths, ∀ above, above <+: path → above ≠ path →
    tree (place above) ≠ some .file
  noDir : ∀ path ∈ paths, tree (place path) ≠ some .dir

/-- Nor is one of them in the way of another. -/
structure Clear (tree : Place → Option Kind) (paths : List (List Component)) : Prop
    extends Free place tree paths where
  apart : ∀ path ∈ paths, ∀ other ∈ paths, ∀ above, above <+: path → above ≠ path →
    place above ≠ place other

variable {place}

theorem grown_snoc (start : Place → Option Kind) (effects : List Effect) (effect : Effect) :
    grown place start (effects ++ [effect]) = effect.grow place (grown place start effects) := by
  unfold grown
  rw [List.foldl_append]
  rfl

variable {tree : Place → Option Kind} {paths : List (List Component)}

theorem grow_mkdir (tree : Place → Option Kind) (path : List Component) :
    Effect.grow place tree (.mkdir path) = tree ∨
      Effect.grow place tree (.mkdir path) = Function.update tree (place path) (some .dir) := by
  by_cases new : tree (place path.dropLast) = some .dir ∧ tree (place path) = none
  · exact .inr (if_pos new)
  · exact .inl (if_neg new)

theorem grow_create (tree : Place → Option Kind) (path : List Component) :
    Effect.grow place tree (.create path) = tree ∨
      Effect.grow place tree (.create path) = Function.update tree (place path) (some .file) := by
  by_cases opens : tree (place path.dropLast) = some .dir ∧ tree (place path) ≠ some .dir
  · exact .inr (if_pos opens)
  · exact .inl (if_neg opens)

/-- A directory on the way to one of the files is none of them. -/
theorem Clear.mkdir (clear : Clear place tree paths) {path above : List Component}
    (member : path ∈ paths) (onTheWay : above <+: path) (proper : above ≠ path) :
    Clear place (Effect.grow place tree (.mkdir above)) paths := by
  rcases grow_mkdir tree above with same | same
  · rw [same]
    exact clear
  · rw [same]
    refine ⟨⟨?_, ?_, ?_, ?_⟩, clear.apart⟩
    · rw [Function.update_apply]
      split
      · rfl
      · exact clear.working
    · rw [Function.update_apply]
      split
      · rfl
      · exact clear.root
    · intro other otherMember higher isStart shorter
      rw [Function.update_apply]
      split
      · exact nofun
      · exact clear.noFile other otherMember higher isStart shorter
    · intro other otherMember
      rw [Function.update_of_ne (clear.apart path member other otherMember above onTheWay
        proper).symm]
      exact clear.noDir other otherMember

/-- One of the files is no directory on the way to another. -/
theorem Clear.create (clear : Clear place tree paths) {path : List Component}
    (member : path ∈ paths) : Clear place (Effect.grow place tree (.create path)) paths := by
  rcases grow_create tree path with same | same
  · rw [same]
    exact clear
  · rw [same]
    have keeps : ∀ higher, tree (place higher) = some .dir →
        Function.update tree (place path) (some .file) (place higher) = some .dir := by
      intro higher there
      rw [Function.update_of_ne]
      · exact there
      · intro here
        rw [here] at there
        exact clear.noDir path member there
    refine ⟨⟨keeps [] clear.working, keeps _ clear.root, ?_, ?_⟩, clear.apart⟩
    · intro other otherMember higher isStart shorter
      rw [Function.update_of_ne (clear.apart other otherMember path member higher isStart shorter)]
      exact clear.noFile other otherMember higher isStart shorter
    · intro other otherMember
      rw [Function.update_apply]
      split
      · exact nofun
      · exact clear.noDir other otherMember

/-- What a tree answers to the making of a directory in whose way nothing is. -/
theorem treeFileSystem_mkdir (start : Place → Option Kind) (done : List Effect)
    (path : List Component) (last : Component)
    (above : ∀ higher, higher <+: path → grown place start done (place higher) ≠ some .file)
    (here : grown place start done (place (path ++ [last])) ≠ some .file) :
    (grown place start done (place path) = none ∧
        (treeFileSystem place start).mkdir done (path ++ [last]) = .refused true false) ∨
      grown place start done (place path) = some .dir ∧
        ((treeFileSystem place start).mkdir done (path ++ [last]) = .created ∨
          (treeFileSystem place start).mkdir done (path ++ [last]) = .refused false true) ∧
        Effect.grow place (grown place start done) (.mkdir (path ++ [last]))
          (place (path ++ [last])) = some .dir := by
  have missing : (path.inits.all fun higher =>
      grown place start done (place higher) ≠ some .file) = true := by
    rw [List.all_eq_true]
    intro higher member
    exact decide_eq_true (above higher ((List.mem_inits higher path).mp member))
  simp only [treeFileSystem, Effect.grow, List.dropLast_concat, missing]
  cases up : grown place start done (place path) with
  | none => exact .inl ⟨rfl, rfl⟩
  | some kind =>
      cases kind with
      | file => exact absurd up (above path (List.prefix_refl _))
      | dir =>
          cases at_ : grown place start done (place (path ++ [last])) with
          | none => exact .inr ⟨rfl, .inl rfl, by simp⟩
          | some kind =>
              cases kind with
              | file => exact absurd at_ here
              | dir => exact .inr ⟨rfl, .inr rfl, by simpa using at_⟩

/-- The directories on the way to one of the files are made, where the top of them is there. -/
theorem Clear.createDirAll (start : Place → Option Kind) {path : List Component}
    (member : path ∈ paths) (noRoot : ∀ above, above ++ [.rootDir] <+: path → above = [])
    (reversed : List Component) (onTheWay : reversed.reverse <+: path)
    (proper : reversed.reverse ≠ path) (done : List Effect)
    (clear : Clear place (grown place start done) paths) :
    ∃ later, Chat.createDirAll (treeFileSystem place start) reversed done = (true, later) ∧
      Clear place (grown place start later) paths ∧
        grown place start later (place reversed.reverse) = some .dir := by
  induction reversed generalizing done with
  | nil => exact ⟨done, rfl, clear, clear.working⟩
  | cons last rest ih =>
      rw [List.reverse_cons] at onTheWay proper ⊢
      have above : rest.reverse <+: path := (List.prefix_append _ [last]).trans onTheWay
      have shorter : rest.reverse ≠ path := by
        rintro rfl
        have longer := onTheWay.length_le
        rw [List.length_append, List.length_singleton] at longer
        omega
      have answers : ∀ effects, Clear place (grown place start effects) paths → _ :=
        fun effects clear => treeFileSystem_mkdir start effects rest.reverse last
          (fun higher isStart => clear.noFile path member higher (isStart.trans above) (by
            rintro rfl
            exact shorter (above.eq_of_length_le isStart.length_le)))
          (clear.noFile path member _ onTheWay proper)
      have tried : Clear place (grown place start
          (done ++ [.mkdir (rest.reverse ++ [last])])) paths := by
        rw [grown_snoc]
        exact clear.mkdir member onTheWay proper
      rw [Chat.createDirAll]
      simp only [List.reverse_cons]
      rcases answers done clear with ⟨missing, refused⟩ | ⟨_, made | there, grows⟩
      · have notRoot : last ≠ .rootDir := by
          rintro rfl
          rw [noRoot _ onTheWay, clear.working] at missing
          cases missing
        obtain ⟨middle, ran, clearMiddle, up⟩ := ih above shorter _ tried
        have again : Clear place (grown place start
            (middle ++ [.mkdir (rest.reverse ++ [last])])) paths := by
          rw [grown_snoc]
          exact clearMiddle.mkdir member onTheWay proper
        refine ⟨middle ++ [.mkdir (rest.reverse ++ [last])], ?_, again, ?_⟩
        · rcases answers middle clearMiddle with ⟨gone, _⟩ | ⟨_, made | there, _⟩
          · rw [up] at gone
            cases gone
          · simp only [refused, if_neg notRoot, ran, made]
          · simp only [refused, if_neg notRoot, ran, there]
        · rcases answers middle clearMiddle with ⟨gone, _⟩ | ⟨_, _, grows⟩
          · rw [up] at gone
            cases gone
          · rw [grown_snoc]
            exact grows
      · refine ⟨_, by simp only [made], tried, ?_⟩
        rw [grown_snoc]
        exact grows
      · refine ⟨_, by simp only [there], tried, ?_⟩
        rw [grown_snoc]
        exact grows

/-- Only the first component of a path is the root. -/
theorem destination_noRoot (meta_ : FileMeta) (above : List Component)
    (isStart : above ++ [.rootDir] <+: destination meta_) : above = [] := by
  have whole : ∃ first, destination meta_ = first :: segments meta_.path := by
    cases absolute : isAbsolute meta_.path with
    | true => exact ⟨_, destination_absolute meta_ absolute⟩
    | false => exact ⟨_, destination_relative meta_ absolute⟩
  obtain ⟨first, whole⟩ := whole
  cases above with
  | nil => rfl
  | cons head rest =>
      rw [whole, List.cons_append, List.cons_prefix_cons] at isStart
      have member : Component.rootDir ∈ segments meta_.path :=
        isStart.2.subset (List.mem_append_right _ (List.mem_singleton_self _))
      exact absurd member (segments_no_root _)

theorem destination_split (meta_ : FileMeta) (notRoot : destination meta_ ≠ [.rootDir]) :
    ∃ last, destination meta_ = directory meta_ ++ [last] := by
  cases absolute : isAbsolute meta_.path with
  | false => exact destination_concat meta_ absolute
  | true =>
      have nonempty : destination meta_ ≠ [] := by
        rw [destination_absolute meta_ absolute]
        exact List.cons_ne_nil _ _
      have split := List.dropLast_append_getLast nonempty
      rw [directory, parent, List.getLast?_eq_some_getLast nonempty]
      generalize same : List.getLast _ nonempty = last at split ⊢
      cases last with
      | rootDir =>
          have top := destination_noRoot meta_ _ ⟨[], (List.append_nil _).trans split⟩
          rw [top] at split
          exact absurd split.symm notRoot
      | curDir => exact ⟨_, split.symm⟩
      | parentDir => exact ⟨_, split.symm⟩
      | normal name => exact ⟨_, split.symm⟩

/-- One file in whose way nothing is. -/
theorem Clear.fill (start : Place → Option Kind) (meta_ : FileMeta)
    (member : destination meta_ ∈ paths) (content : List UInt8) (done : List Effect)
    (clear : Clear place (grown place start done) paths) :
    (treeFileSystem place start).GrantsFile meta_ done ∧
      Clear place (grown place start ((treeFileSystem place start).filled meta_ content done))
        paths := by
  have notRoot : destination meta_ ≠ [.rootDir] := by
    intro root
    have noDir := clear.noDir _ member
    rw [root] at noDir
    exact noDir clear.root
  obtain ⟨last, whole⟩ := destination_split meta_ notRoot
  have shorter : directory meta_ ≠ destination meta_ := by
    intro same
    have long := congrArg List.length whole
    rw [same, List.length_append, List.length_singleton] at long
    omega
  obtain ⟨later, made, clearLater, up⟩ := clear.createDirAll start member
    (destination_noRoot meta_) (directory meta_).reverse
    (by rw [List.reverse_reverse]; exact directory_start meta_)
    (by rw [List.reverse_reverse]; exact shorter) done
  rw [List.reverse_reverse] at up
  have above : (destination meta_).dropLast = directory meta_ := by
    rw [whole, List.dropLast_concat]
  have opens : grown place start later (place (destination meta_).dropLast) = some .dir ∧
      grown place start later (place (destination meta_)) ≠ some .dir :=
    ⟨by rw [above]; exact up, clearLater.noDir _ member⟩
  have opened : grown place start (later ++ [.create (destination meta_)])
      (place (destination meta_)) = some .file := by
    rw [grown_snoc, Effect.grow, if_pos opens, Function.update_self]
  have written : Clear place (grown place start
      (later ++ [.create (destination meta_)] ++ [.write (destination meta_) content])) paths := by
    rw [grown_snoc, grown_snoc]
    exact clearLater.create member
  refine ⟨⟨by rw [made], ?_, ?_⟩, ?_⟩
  · rw [made]
    simp only [treeFileSystem, opens, decide_true, ne_eq, not_false_eq_true, Bool.and_self]
  · rw [made]
    exact decide_eq_true opened
  · rw [FileSystem.filled, made]
    exact written

/-- Where nothing is in their way, a tree grants files all that is asked for them. -/
theorem Clear.grants (start : Place → Option Kind) (content : LocalFileMeta → List UInt8)
    (files : List LocalFileMeta) (among : ∀ file ∈ files, destination file.public_ ∈ paths)
    (done : List Effect) (clear : Clear place (grown place start done) paths) :
    (treeFileSystem place start).Grants content files done := by
  induction files generalizing done with
  | nil => trivial
  | cons file files ih =>
      obtain ⟨granted, later⟩ := clear.fill start file.public_ (among file List.mem_cons_self)
        (content file) done
      exact ⟨granted, ih (fun other member => among other (List.mem_cons_of_mem _ member)) _ later⟩

end Trees

/-- A download folder that is not there yet. -/
def emptyFolder (path : List Component) : Option Kind :=
  if path = [] ∨ path = [.rootDir] then some .dir else none

theorem emptyFolder_free (paths : List (List Component))
    (named : ∀ path ∈ paths, path ≠ [] ∧ path ≠ [.rootDir]) : Free id emptyFolder paths where
  working := rfl
  root := rfl
  noFile path member above isStart proper := by
    unfold emptyFolder
    split <;> exact nofun
  noDir path member := by
    unfold emptyFolder
    rw [if_neg]
    · exact nofun
    · exact not_or.mpr (named path member)

end Gday.Chat
