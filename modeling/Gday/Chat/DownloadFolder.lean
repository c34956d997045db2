import Gday.Chat.SizeSums

/-! # Where received files end up

Everything that receiving a file touches is a prefix of its path below the folder, so
paths that are relative and never climb stay inside.  Nothing in the code checks for
this: for any other path there is a file system on which it is left. -/
set_option autoImplicit false
namespace Gday.Chat

open Gday.Lib.AsyncStream Gday.Lib.LexicalPath

/-- A relative path none of whose beginnings goes up more often than down. -/
def Confined (path : Path) : Prop := isAbsolute path = false ∧ Balanced (segments path)

instance (path : Path) : Decidable (Confined path) := inferInstanceAs (Decidable (_ ∧ _))

def Message.Confined : Message → Prop
  | .fileOffer (some files) => ∀ meta_ ∈ files, Chat.Confined meta_.path
  | .fileOffer none => True
  | .fileAccept _ => True

theorem destination_relative (meta_ : FileMeta) (relative : isAbsolute meta_.path = false) :
    destination meta_ = .normal folderName :: segments meta_.path :=
  components_join folderName meta_.path relative (by decide) (by decide) (by decide)

theorem destination_absolute (meta_ : FileMeta) (absolute : isAbsolute meta_.path = true) :
    destination meta_ = .rootDir :: segments meta_.path := by
  have joined : join receivedFileFolder meta_.path = meta_.path := if_pos absolute
  rw [destination, joined, components, if_pos absolute]

theorem directory_start (meta_ : FileMeta) : directory meta_ <+: destination meta_ := by
  rw [directory, parent]
  cases (destination meta_).getLast? with
  | none => exact List.nil_prefix
  | some last =>
      cases last with
      | rootDir => exact List.nil_prefix
      | curDir => exact List.dropLast_prefix _
      | parentDir => exact List.dropLast_prefix _
      | normal name => exact List.dropLast_prefix _

/-! ## What is touched -/

/-- The rule of `create_dir_all`: what no `mkdir` on the way breaks is kept. -/
theorem createDirAll_rule (fileSystem : FileSystem) (keeps : List Effect → Prop)
    (reversed : List Component) (done : List Effect) (before : keeps done)
    (onTheWay : ∀ tail, tail ≠ [] → tail <:+ reversed →
      ∀ effects, keeps effects → keeps (effects ++ [.mkdir tail.reverse])) :
    keeps (createDirAll fileSystem reversed done).2 := by
  induction reversed generalizing done with
  | nil => exact before
  | cons last rest ih =>
      have whole := onTheWay (last :: rest) (List.cons_ne_nil _ _) (List.suffix_refl _)
      have tried := whole done before
      have nested := ih _ tried fun tail nonempty isSuffix =>
        onTheWay tail nonempty (isSuffix.trans (List.suffix_cons last rest))
      simp only [createDirAll]
      cases fileSystem.mkdir done (last :: rest).reverse with
      | created => exact tried
      | refused notFound isDir =>
          cases notFound with
          | false => exact tried
          | true =>
              by_cases root : last = .rootDir
              · simp only [if_pos root]
                exact tried
              · simp only [if_neg root]
                generalize createDirAll fileSystem rest _ = result at nested ⊢
                obtain ⟨fine, later⟩ := result
                cases fine with
                | false => exact nested
                | true =>
                    have again := whole later nested
                    simp only
                    cases fileSystem.mkdir later (last :: rest).reverse with
                    | created => exact again
                    | refused notFound isDir => exact again

/-- What holds of the directories on the way holds of everything that is done. -/
theorem createDirAll_forall (fileSystem : FileSystem) (holds : Effect → Prop)
    (reversed : List Component) (done : List Effect) (before : ∀ effect ∈ done, holds effect)
    (onTheWay : ∀ tail, tail ≠ [] → tail <:+ reversed → holds (.mkdir tail.reverse)) :
    ∀ effect ∈ (createDirAll fileSystem reversed done).2, holds effect := by
  refine createDirAll_rule fileSystem (fun effects => ∀ effect ∈ effects, holds effect) reversed
    done before ?_
  intro tail nonempty isSuffix effects all effect member
  rcases List.mem_append.mp member with member | member
  · exact all effect member
  · rw [List.mem_singleton.mp member]
    exact onTheWay tail nonempty isSuffix

theorem fillFile_forall (fileSystem : FileSystem) (holds : Effect → Prop) (meta_ : FileMeta)
    (supply : Supply) (done : List Effect) (before : ∀ effect ∈ done, holds effect)
    (there : ∀ effect : Effect, effect.path = destination meta_ → holds effect) :
    ∀ effect ∈ (fillFile fileSystem meta_ supply done).2.2, holds effect := by
  have snoc : ∀ (list : List Effect) (last : Effect), (∀ effect ∈ list, holds effect) →
      last.path = destination meta_ → ∀ effect ∈ list ++ [last], holds effect := by
    intro list last all this effect member
    rcases List.mem_append.mp member with member | member
    · exact all effect member
    · rw [List.mem_singleton.mp member]
      exact there last this
  have created := snoc done (.create (destination meta_)) before rfl
  simp only [fillFile]
  by_cases opens : fileSystem.create done (destination meta_) = true
  · rw [if_pos opens]
    generalize copyBuf meta_.size supply = copied
    obtain ⟨bytes, outcome, rest⟩ := copied
    have written := snoc _ (.write (destination meta_) bytes) created rfl
    by_cases writes : fileSystem.write (done ++ [.create (destination meta_)])
        (destination meta_) = true
    · simp only [if_pos writes]
      exact written
    · simp only [if_neg writes]
      exact written
  · rw [if_neg opens]
    exact created

/-- A file touches nothing but the beginnings of its path. -/
theorem receiveFile_forall (fileSystem : FileSystem) (holds : Effect → Prop) (meta_ : FileMeta)
    (supply : Supply) (done : List Effect) (before : ∀ effect ∈ done, holds effect)
    (nonempty : destination meta_ ≠ [])
    (onTheWay : ∀ effect : Effect, effect.path ≠ [] → effect.path <+: destination meta_ →
      holds effect) :
    ∀ effect ∈ (receiveFile fileSystem meta_ supply done).2.2, holds effect := by
  have made := createDirAll_forall fileSystem holds (directory meta_).reverse done before (by
    intro tail tailNonempty isSuffix
    refine onTheWay _ (by simpa [Effect.path] using tailNonempty) ?_
    have isPrefix := List.reverse_prefix.mpr isSuffix
    rw [List.reverse_reverse] at isPrefix
    exact isPrefix.trans (directory_start meta_))
  rw [receiveFile]
  generalize createDirAll fileSystem (directory meta_).reverse done = result at made ⊢
  obtain ⟨fine, later⟩ := result
  cases fine with
  | false => exact made
  | true =>
      refine fillFile_forall fileSystem holds meta_ supply later made ?_
      intro effect there
      exact onTheWay effect (there ▸ nonempty) (there ▸ List.prefix_refl _)

theorem receiveLoop_forall (fileSystem : FileSystem) (holds : Effect → Prop)
    (files : List FileMeta) (supply : Supply) (done : List Effect)
    (before : ∀ effect ∈ done, holds effect)
    (eachFile : ∀ meta_ ∈ files, destination meta_ ≠ [] ∧ ∀ effect : Effect, effect.path ≠ [] →
      effect.path <+: destination meta_ → holds effect) :
    ∀ effect ∈ (receiveLoop fileSystem files supply done).2.2, holds effect := by
  induction files generalizing supply done with
  | nil => exact before
  | cons meta_ files ih =>
      obtain ⟨nonempty, onTheWay⟩ := eachFile meta_ (List.mem_cons_self ..)
      have received :=
        receiveFile_forall fileSystem holds meta_ supply done before nonempty onTheWay
      rw [receiveLoop]
      generalize receiveFile fileSystem meta_ supply done = result at received ⊢
      obtain ⟨outcome, rest, later⟩ := result
      cases outcome with
      | ready value =>
          exact ih rest later received fun other member =>
            eachFile other (List.mem_cons_of_mem _ member)
      | failed kind => exact received
      | pending => exact received
      | panicked panic => exact received
      | waiting => exact received

/-- The beginnings of a confined path are inside. -/
theorem Confined.inside {meta_ : FileMeta} (confined : Confined meta_.path) :
    destination meta_ ≠ [] ∧ ∀ effect : Effect, effect.path ≠ [] →
      effect.path <+: destination meta_ → Inside folderName (resolve effect.path) := by
  obtain ⟨relative, balanced⟩ := confined
  rw [destination_relative meta_ relative]
  refine ⟨List.cons_ne_nil _ _, ?_⟩
  intro effect nonempty isPrefix
  rcases List.prefix_cons_iff.mp isPrefix with none | ⟨start, same, isStart⟩
  · exact absurd none nonempty
  · rw [same]
    exact (within_iff _ (segments_no_root _) folderName).mpr balanced start
      ((List.mem_inits start _).mpr isStart)

theorem Message.Confined.inside {message : Message} (confined : message.Confined)
    (surroundings : Surroundings) :
    ∀ effect ∈ (notCreatorRun surroundings message).2.2,
      Inside folderName (resolve effect.path) := by
  cases message with
  | fileAccept chosen => simp [notCreatorRun]
  | fileOffer offer =>
      cases offer with
      | none => simp [notCreatorRun]
      | some files =>
          rw [notCreatorRun]
          cases confirmReceive surroundings.debug surroundings.looks surroundings.choice files with
          | error panic => simp
          | ok chosen =>
              by_cases sent : surroundings.replySent = true
              · simp only [if_pos sent, receiveFiles]
                cases sumSizes surroundings.debug (filesToReceive files chosen) 0 with
                | error panic => simp
                | ok sum =>
                    refine receiveLoop_forall _ _ _ _ [] (by simp) ?_
                    intro meta_ member
                    exact Chat.Confined.inside
                      (confined meta_ ((filesToReceive_sublist files chosen).subset member))
              · simp [if_neg sent]

/-! ## A file system on which nothing fails -/

/-- Directories are missing until the one above them has been made; everything else is
there, and every call succeeds. -/
def obligingFileSystem : FileSystem where
  mkdir done path :=
    if path.head? = some .rootDir ∨ done.getLast? = some (.mkdir path) ∨
        done.getLast? = some (.mkdir path.dropLast) then .created
    else .refused true false
  create _ _ := true
  write _ _ := true

theorem obligingFileSystem_missing (done : List Effect) (path : List Component)
    (relative : path.head? ≠ some .rootDir)
    (deeper : ∀ other, done.getLast? = some (.mkdir other) → path.length < other.length) :
    obligingFileSystem.mkdir done path = .refused true false := by
  refine if_neg ?_
  rintro (root | again | above)
  · exact relative root
  · exact Nat.lt_irrefl _ (deeper _ again)
  · have shorter := deeper _ above
    rw [List.length_dropLast] at shorter
    omega

/-- Every directory on the way is tried, and the last thing done is to make the deepest. -/
theorem createDirAll_oblige (reversed : List Component) (noRoot : Component.rootDir ∉ reversed)
    (done : List Effect)
    (deeper : ∀ other, done.getLast? = some (.mkdir other) → reversed.length < other.length) :
    ∃ later, createDirAll obligingFileSystem reversed done = (true, later) ∧
      (∀ effect ∈ done, effect ∈ later) ∧
        (later.getLast? = if reversed = [] then done.getLast?
          else some (.mkdir reversed.reverse)) ∧
          ∀ tail, tail ≠ [] → tail <:+ reversed → .mkdir tail.reverse ∈ later := by
  induction reversed generalizing done with
  | nil =>
      refine ⟨done, rfl, fun _ member => member, rfl, ?_⟩
      intro tail nonempty isSuffix
      exact absurd (List.suffix_nil.mp isSuffix) nonempty
  | cons last rest ih =>
      have relative : (last :: rest).reverse.head? ≠ some .rootDir := by
        intro root
        exact noRoot (List.mem_reverse.mp (List.mem_of_mem_head? root))
      have missing := obligingFileSystem_missing done (last :: rest).reverse relative (by
        rw [List.length_reverse]
        exact deeper)
      have notRoot : last ≠ .rootDir := fun root => noRoot (root ▸ List.mem_cons_self ..)
      obtain ⟨later, made, kept, ends, tried⟩ :=
        ih (fun member => noRoot (List.mem_cons_of_mem _ member))
          (done ++ [.mkdir (last :: rest).reverse]) (by
            intro other same
            rw [List.getLast?_concat, Option.some.injEq, Effect.mkdir.injEq] at same
            rw [← same, List.length_reverse]
            exact Nat.lt_succ_self _)
      have second : obligingFileSystem.mkdir later (last :: rest).reverse = .created := by
        refine if_pos (Or.inr ?_)
        rw [ends]
        by_cases top : rest = []
        · left
          rw [if_pos top, List.getLast?_concat]
        · right
          rw [if_neg top, List.reverse_cons, List.dropLast_concat]
      refine ⟨later ++ [.mkdir (last :: rest).reverse], ?_, ?_, ?_, ?_⟩
      · simp only [createDirAll, missing, if_neg notRoot, made, second]
      · intro effect member
        exact List.mem_append_left _ (kept effect (List.mem_append_left _ member))
      · rw [List.getLast?_concat, if_neg (List.cons_ne_nil _ _)]
      · intro tail nonempty isSuffix
        rcases List.suffix_cons_iff.mp isSuffix with rfl | shorter
        · exact List.mem_append_right _ (List.mem_singleton.mpr rfl)
        · exact List.mem_append_left _ (tried tail nonempty shorter)

/-- An absolute directory is there at once. -/
theorem createDirAll_oblige_absolute (comps : List Component)
    (absolute : comps = [] ∨ comps.head? = some .rootDir) (done : List Effect) :
    ∃ later, createDirAll obligingFileSystem comps.reverse done = (true, later) ∧
      ∀ effect ∈ done, effect ∈ later := by
  cases reversed : comps.reverse with
  | nil => exact ⟨done, rfl, fun _ member => member⟩
  | cons last rest =>
      have same : (last :: rest).reverse = comps := by rw [← reversed, List.reverse_reverse]
      have root : (last :: rest).reverse.head? = some .rootDir := by
        rcases absolute with none | root
        · rw [none] at reversed
          exact absurd reversed (by simp)
        · rw [same, root]
      have created : obligingFileSystem.mkdir done (last :: rest).reverse = .created :=
        if_pos (Or.inl root)
      refine ⟨done ++ [.mkdir (last :: rest).reverse], ?_, ?_⟩
      · simp only [createDirAll, created]
      · intro effect member
        exact List.mem_append_left _ member

theorem fillFile_oblige (meta_ : FileMeta) (done : List Effect) :
    ∃ bytes, fillFile obligingFileSystem meta_ ⟨[], .endOfStream⟩ done =
      (.ready (), ⟨[], .endOfStream⟩,
        done ++ [.create (destination meta_), .write (destination meta_) bytes]) := by
  refine ⟨[], ?_⟩
  have copied : copyBuf meta_.size ⟨[], .endOfStream⟩ = ([], .ready (), ⟨[], .endOfStream⟩) := by
    rw [copyBuf]
    simp
  simp only [fillFile, obligingFileSystem, copied, if_true]
  simp

/-- The directory of a file is made, and that of a relative path step by step. -/
theorem directory_oblige (meta_ : FileMeta) (done : List Effect)
    (fresh : ∀ other, done.getLast? ≠ some (.mkdir other)) :
    ∃ later, createDirAll obligingFileSystem (directory meta_).reverse done = (true, later) ∧
      (∀ effect ∈ done, effect ∈ later) ∧
        (isAbsolute meta_.path = false → ∀ start, start ≠ [] → start <+: directory meta_ →
          .mkdir start ∈ later) := by
  cases absolute : isAbsolute meta_.path with
  | true =>
      have fromRoot : directory meta_ = [] ∨ (directory meta_).head? = some .rootDir := by
        have isStart := directory_start meta_
        rw [destination_absolute meta_ absolute] at isStart
        rcases List.prefix_cons_iff.mp isStart with none | ⟨_, same, _⟩
        · exact Or.inl none
        · right
          rw [same, List.head?_cons]
      obtain ⟨later, made, kept⟩ := createDirAll_oblige_absolute (directory meta_) fromRoot done
      exact ⟨later, made, kept, nofun⟩
  | false =>
      have noRoot : Component.rootDir ∉ (directory meta_).reverse := by
        rw [List.mem_reverse]
        intro member
        have inDestination := (directory_start meta_).subset member
        rw [destination_relative meta_ absolute] at inDestination
        rcases List.mem_cons.mp inDestination with same | member
        · exact absurd same nofun
        · exact segments_no_root _ member
      obtain ⟨later, made, kept, _, tried⟩ := createDirAll_oblige _ noRoot done
        (fun other same => absurd same (fresh other))
      refine ⟨later, made, kept, fun _ start nonempty isStart => ?_⟩
      have found := tried start.reverse (by simpa using nonempty) (by
        rw [List.reverse_suffix]
        exact isStart)
      rwa [List.reverse_reverse] at found

theorem destination_concat (meta_ : FileMeta) (relative : isAbsolute meta_.path = false) :
    ∃ last, destination meta_ = directory meta_ ++ [last] := by
  rw [directory, parent, destination_relative meta_ relative]
  have nonempty := List.cons_ne_nil (Component.normal folderName) (segments meta_.path)
  have split := List.dropLast_append_getLast nonempty
  rw [List.getLast?_eq_some_getLast nonempty]
  generalize same : List.getLast _ nonempty = last at split ⊢
  cases last with
  | rootDir =>
      have member := List.getLast_mem nonempty
      rw [same] at member
      rcases List.mem_cons.mp member with root | member
      · exact absurd root nofun
      · exact absurd member (segments_no_root _)
  | curDir => exact ⟨_, split.symm⟩
  | parentDir => exact ⟨_, split.symm⟩
  | normal name => exact ⟨_, split.symm⟩

/-- A file is received, and what its path goes through is touched. -/
theorem receiveFile_oblige (meta_ : FileMeta) (done : List Effect)
    (fresh : ∀ other, done.getLast? ≠ some (.mkdir other)) :
    ∃ later, receiveFile obligingFileSystem meta_ ⟨[], .endOfStream⟩ done =
        (.ready (), ⟨[], .endOfStream⟩, later) ∧
      (∀ effect ∈ done, effect ∈ later) ∧ (∀ other, later.getLast? ≠ some (.mkdir other)) ∧
        .create (destination meta_) ∈ later ∧
          (isAbsolute meta_.path = false → ∀ start, start ≠ [] → start <+: destination meta_ →
            ∃ effect ∈ later, effect.path = start) := by
  obtain ⟨middle, made, kept, onTheWay⟩ := directory_oblige meta_ done fresh
  obtain ⟨bytes, filled⟩ := fillFile_oblige meta_ middle
  refine ⟨middle ++ [.create (destination meta_), .write (destination meta_) bytes],
    ?_, ?_, ?_, ?_, ?_⟩
  · rw [receiveFile, made]
    exact filled
  · intro effect member
    exact List.mem_append_left _ (kept effect member)
  · intro other same
    rw [List.getLast?_append] at same
    simp at same
  · simp
  · intro relative start nonempty isStart
    obtain ⟨last, whole⟩ := destination_concat meta_ relative
    rw [whole] at isStart
    rcases List.prefix_concat_iff.mp isStart with same | shorter
    · exact ⟨.create (destination meta_), by simp, by rw [Effect.path, whole, same]⟩
    · exact ⟨.mkdir start, List.mem_append_left _ (onTheWay relative start nonempty shorter), rfl⟩

theorem receiveLoop_oblige (files : List FileMeta) (done : List Effect)
    (fresh : ∀ other, done.getLast? ≠ some (.mkdir other)) :
    ∃ later, (receiveLoop obligingFileSystem files ⟨[], .endOfStream⟩ done).2.2 = later ∧
      (∀ effect ∈ done, effect ∈ later) ∧
        ∀ meta_ ∈ files, .create (destination meta_) ∈ later ∧
          (isAbsolute meta_.path = false → ∀ start, start ≠ [] → start <+: destination meta_ →
            ∃ effect ∈ later, effect.path = start) := by
  induction files generalizing done with
  | nil => exact ⟨done, rfl, fun _ member => member, nofun⟩
  | cons meta_ files ih =>
      obtain ⟨middle, received, kept, stillFresh, created, onTheWay⟩ :=
        receiveFile_oblige meta_ done fresh
      obtain ⟨later, rest, keptLater, others⟩ := ih middle stillFresh
      refine ⟨later, ?_, fun effect member => keptLater effect (kept effect member), ?_⟩
      · rw [receiveLoop, received]
        exact rest
      · intro other member
        rcases List.mem_cons.mp member with rfl | member
        · refine ⟨keptLater _ created, fun relative start nonempty isStart => ?_⟩
          obtain ⟨effect, isDone, same⟩ := onTheWay relative start nonempty isStart
          exact ⟨effect, keptLater effect isDone, same⟩
        · exact others other member

/-- Nothing fails, the user wants every file, and the sender stops at once. -/
def obliging : Surroundings :=
  { debug := false
    looks := fun _ => (fun _ => none, fun _ => none)
    choice := .all
    replySent := true
    fileSystem := obligingFileSystem
    supply := ⟨[], .endOfStream⟩ }

theorem obliging_run (files : List FileMeta) :
    (notCreatorRun obliging (.fileOffer (some files))).2.2 =
      (receiveLoop obligingFileSystem files ⟨[], .endOfStream⟩ []).2.2 := by
  obtain ⟨tally, tallied⟩ := tallyFiles_release obliging.looks files ⟨[], 0, 0⟩
  obtain ⟨total, summed⟩ := sumSizes_release files 0
  have chosen : confirmReceive false obliging.looks .all files =
      .ok (List.replicate files.length true) := by
    rw [confirmReceive, tallied]
    rfl
  rw [notCreatorRun]
  simp only [obliging] at chosen ⊢
  rw [chosen]
  simp only [if_true, filesToReceive_replicate, List.take_length, receiveFiles, summed]

/-- Whatever the user and the file system do, receiving touches nothing outside the
folder: exactly where the paths of the offer are confined. -/
theorem received_inside_iff (message : Message) :
    (∀ surroundings, ∀ effect ∈ (notCreatorRun surroundings message).2.2,
      Inside folderName (resolve effect.path)) ↔ message.Confined := by
  constructor
  · intro inside
    cases message with
    | fileAccept chosen => trivial
    | fileOffer offer =>
        cases offer with
        | none => trivial
        | some files =>
            intro meta_ member
            obtain ⟨later, ends, _, touched⟩ := receiveLoop_oblige files [] nofun
            have allInside := inside obliging
            rw [obliging_run, ends] at allInside
            obtain ⟨created, onTheWay⟩ := touched meta_ member
            have relative : isAbsolute meta_.path = false := by
              by_contra absolute
              have outside := (allInside _ created).1
              rw [Effect.path, destination_absolute meta_ (by simpa using absolute)] at outside
              rw [resolve_root] at outside
              exact absurd outside nofun
            refine ⟨relative, ?_⟩
            refine (within_iff _ (segments_no_root _) folderName).mp ?_
            intro start isStart
            obtain ⟨effect, isDone, same⟩ := onTheWay relative (.normal folderName :: start)
              (List.cons_ne_nil _ _) (by
                rw [destination_relative meta_ relative]
                exact List.cons_prefix_cons.mpr ⟨rfl, (List.mem_inits start _).mp isStart⟩)
            rw [← same]
            exact allInside effect isDone
  · intro confined surroundings
    exact confined.inside surroundings

/-- An absolute path and a climbing one, on a file system where nothing fails. -/
theorem received_outside :
    (∃ effect ∈ (notCreatorRun obliging (.fileOffer (some [⟨"/etc/x".toList, 0⟩]))).2.2,
      ¬ Inside folderName (resolve effect.path)) ∧
    ∃ effect ∈ (notCreatorRun obliging (.fileOffer (some [⟨"../x".toList, 0⟩]))).2.2,
      ¬ Inside folderName (resolve effect.path) := by
  decide

end Gday.Chat
