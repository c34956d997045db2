import Gday.Chat.SharedDestinations
import Gday.Chat.WalkEnds
import Gday.Chat.AnnouncedSizes

/-! # Exactly the files below the arguments

Without links the ways of the walk are the paths of the tree, so it ends, finds each file
once, and finds no file for two arguments that lie beside each other.  What can still go
wrong is the sum of the sizes, which is only printed. -/
set_option autoImplicit false
namespace Gday.Chat

open Gday.Lib.AsyncStream (Panic)
open Gday.Lib.LexicalPath Gday.Lib.Files

/-- There are no links, and every directory is read in full. -/
structure Plain (tree : FileTree) (listing : Listing) : Prop where
  noLinks : ∀ place target, tree.node place ≠ some (.link target)
  listed : ∀ place, tree.node place = some .dir →
    ∃ names : List (List Char), listing.entries place = some (names.map some) ∧
      ∀ name, name ∈ names ↔ tree.node (place ++ [name]) ≠ none

section Trees

variable {tree : FileTree} {listing : Listing}

theorem Plain.canonicalize (plain : Plain tree listing) {place : Place}
    (there : tree.node place ≠ none) : tree.canonicalize (canonical place) = some place := by
  obtain ⟨node, found⟩ := Option.ne_none_iff_exists'.mp there
  apply tree.canonicalize_canonical place node found
  cases node with
  | link target => exact absurd found (plain.noLinks place target)
  | file size openable => rfl
  | dir => rfl
  | other => rfl

theorem Plain.opens_iff (plain : Plain tree listing) (place : Place) (name : List Char)
    (next : Place) :
    Opens tree listing place name next ↔
      tree.node (place ++ [name]) ≠ none ∧ next = place ++ [name] := by
  constructor
  · rintro ⟨dir, ⟨entries, listed, member⟩, opens⟩
    obtain ⟨names, all, complete⟩ := plain.listed place dir
    rw [all, Option.some.injEq] at listed
    rw [← listed] at member
    obtain ⟨other, found, same⟩ := List.mem_map.mp member
    rw [Option.some.inj same] at found
    have there := (complete name).mp found
    rw [plain.canonicalize there, Option.some.injEq] at opens
    exact ⟨there, opens.symm⟩
  · rintro ⟨there, same⟩
    have dir := tree.dir_above there
    obtain ⟨names, all, complete⟩ := plain.listed place dir
    refine ⟨dir, ⟨_, all, List.mem_map.mpr ⟨name, (complete name).mpr there, rfl⟩⟩, ?_⟩
    rw [same, plain.canonicalize there]

/-- The ways of the walk are the paths of the tree. -/
theorem Plain.leads_iff (plain : Plain tree listing) (place : Place) (route : List (List Char))
    (final : Place) (there : tree.node place ≠ none) :
    Leads tree listing place route final ↔
      final = place ++ route ∧ tree.node (place ++ route) ≠ none := by
  induction route generalizing place with
  | nil =>
      rw [List.append_nil]
      constructor
      · intro leads
        cases leads with
        | here => exact ⟨rfl, there⟩
      · rintro ⟨same, -⟩
        rw [same]
        exact .here place
  | cons name route ih =>
      have split : place ++ name :: route = place ++ [name] ++ route := by
        rw [List.append_assoc, List.singleton_append]
      constructor
      · intro leads
        cases leads with
        | into _ next _ _ _ opens later =>
            obtain ⟨nextThere, same⟩ := (plain.opens_iff place name next).mp opens
            rw [same] at later
            rw [split]
            exact (ih _ nextThere).mp later
      · rintro ⟨same, finalThere⟩
        rw [split] at same finalThere
        have nextThere : tree.node (place ++ [name]) ≠ none := by
          cases route with
          | nil =>
              rw [List.append_nil] at finalThere
              exact finalThere
          | cons other route =>
              rw [tree.dir_of_prefix _ _ finalThere (List.cons_ne_nil _ _)]
              exact Option.some_ne_none _
        exact .into place _ final name route
          ((plain.opens_iff place name _).mpr ⟨nextThere, rfl⟩)
          ((ih _ nextThere).mpr ⟨same, finalThere⟩)

theorem Plain.not_fails (plain : Plain tree listing) (place : Place) :
    ¬ Fails tree listing place := by
  rintro ⟨dir, fails⟩
  obtain ⟨names, all, complete⟩ := plain.listed place dir
  rcases fails _ all with broken | ⟨name, member, nowhere⟩
  · obtain ⟨name, -, same⟩ := List.mem_map.mp broken
    cases same
  · obtain ⟨other, found, same⟩ := List.mem_map.mp member
    rw [Option.some.inj same] at found
    rw [plain.canonicalize ((complete name).mp found)] at nowhere
    cases nowhere

theorem topPath_prefix_canonical (place : Place) : topPath place <+: canonical place := by
  cases place using List.reverseRecOn with
  | nil => exact List.nil_prefix
  | append_singleton place name =>
      rw [topPath_snoc, canonical_prefix_iff]
      exact List.prefix_append place [name]

/-- Every step of the walk goes down. -/
theorem Plain.deeper (plain : Plain tree listing) {place final : Place}
    (steps : Relation.TransGen (Enters tree listing) place final) :
    place.length < final.length := by
  have one : ∀ place next, Enters tree listing place next → place.length < next.length := by
    rintro place next ⟨name, opens⟩
    rw [((plain.opens_iff place name next).mp opens).2, List.length_append]
    exact Nat.lt_add_of_pos_right Nat.one_pos
  induction steps with
  | single enters => exact one _ _ enters
  | tail before enters ih => exact ih.trans (one _ _ enters)

theorem Plain.safe (plain : Plain tree listing) {place : Place} (there : tree.node place ≠ none) :
    Safe tree listing place := by
  refine ⟨fun final reaches _ => ?_, fun dir _ round => lt_irrefl _ (plain.deeper round)⟩
  obtain ⟨route, leads⟩ := leads_of_reaches reaches
  rw [((plain.leads_iff place route final there).mp leads).1]
  exact (topPath_prefix_canonical place).trans
    ((canonical_prefix_iff _ _).mpr (List.prefix_append _ _))

/-- Below arguments that are there the walk returns its files. -/
theorem Plain.walk_returns (plain : Plain tree listing) (paths : List (List Component))
    (exist : ∀ path ∈ paths, ∃ place, tree.canonicalize path = some place) :
    ∃ depth files, getFileMetadatas tree listing depth paths [] = .ok files := by
  have safe : ∀ path place, tree.canonicalize path = some place → Safe tree listing place := by
    intro path place leads
    exact plain.safe (tree.there_of_canonicalize leads)
  obtain ⟨depth, answers⟩ := ends_of_safe paths fun _ path _ _ _ => safe path
  cases walked : getFileMetadatas tree listing depth paths [] with
  | ok files => exact ⟨depth, files, walked⟩
  | error stop =>
      have answer := answers []
      rw [walked] at answer
      rcases getFileMetadatas_error depth paths [] stop walked with
        unanswered | ⟨path, member, unclean⟩
      · exact absurd answer unanswered
      · obtain ⟨place, leads⟩ := exist path member
        exact absurd ⟨place, leads, fun final _ => plain.not_fails final⟩ unclean

end Trees

/-! ## What is offered -/

/-- For two positions one place is at or below the other. -/
def Overlapping (places : List Place) : Prop :=
  ∃ (i j : Nat) (one other : Place), i < j ∧ places[i]? = some one ∧ places[j]? = some other ∧
    (one <+: other ∨ other <+: one)

theorem overlapping_iff (places : List Place) :
    Overlapping places ↔ ¬ places.Pairwise Beside := by
  rw [List.pairwise_iff_getElem]
  constructor
  · rintro ⟨i, j, one, other, before, there, otherThere, overlap⟩ all
    obtain ⟨inside, same⟩ := List.getElem?_eq_some_iff.mp there
    obtain ⟨otherInside, otherSame⟩ := List.getElem?_eq_some_iff.mp otherThere
    have beside := all i j inside otherInside before
    rw [same, otherSame] at beside
    exact overlap.elim beside.1 beside.2
  · intro notAll
    by_contra none_
    apply notAll
    intro i j inside otherInside before
    refine ⟨fun below => none_ ?_, fun above => none_ ?_⟩
    · exact ⟨i, j, _, _, before, List.getElem?_eq_getElem inside,
        List.getElem?_eq_getElem otherInside, Or.inl below⟩
    · exact ⟨i, j, _, _, before, List.getElem?_eq_getElem inside,
        List.getElem?_eq_getElem otherInside, Or.inr above⟩

/-- The openable files at or below an argument. -/
def offered (tree : FileTree) (places : List Place) : List Place :=
  (tree.nodes.map Prod.fst).dedup.filter fun place =>
    decide (tree.Openable place ∧ ∃ top ∈ places, top <+: place)

def totalSize (tree : FileTree) (places : List Place) : Nat :=
  ((offered tree places).map tree.fileSize).sum

/-- Each of these files once and nothing else, under its canonical path, with its length, and
for the peer under the names from the last one of its argument on. -/
def ListsFiles (tree : FileTree) (places : List Place) (files : List LocalFileMeta) : Prop :=
  (files.map LocalFileMeta.localPath).Nodup ∧
    ∀ file, file ∈ files ↔ ∃ above name below size, above ++ [name] ∈ places ∧
      tree.node (above ++ name :: below) = some (.file size true) ∧
      file = ⟨render (canonical (above ++ name :: below)),
        render ((name :: below).map .normal), size.toNat⟩

theorem offered_nodup (tree : FileTree) (places : List Place) : (offered tree places).Nodup :=
  (List.nodup_dedup _).filter _

section Offers

variable {tree : FileTree} {listing : Listing} {paths : List (List Component)}
  {places : List Place}

theorem mem_offered (place : Place) :
    place ∈ offered tree places ↔ tree.Openable place ∧ ∃ top ∈ places, top <+: place := by
  rw [offered, List.mem_filter, List.mem_dedup, decide_eq_true_eq]
  refine and_iff_right_of_imp ?_
  rintro ⟨openable, -⟩
  exact (tree.mem_places place).mpr (tree.there_of_openable openable)

theorem exists_place
    (exist : List.Forall₂ (fun path place => tree.canonicalize path = some place) paths places) :
    ∀ path ∈ paths, ∃ place, tree.canonicalize path = some place := by
  induction exist with
  | nil => exact List.forall_mem_nil _
  | cons leads others ih => exact List.forall_mem_cons.mpr ⟨⟨_, leads⟩, ih⟩

theorem placed_iff
    (exist : List.Forall₂ (fun path place => tree.canonicalize path = some place) paths places)
    (index : Nat) (place : Place) :
    (∃ path, paths[index]? = some path ∧ tree.canonicalize path = some place) ↔
      places[index]? = some place := by
  induction exist generalizing index with
  | nil => simp
  | @cons path first paths places leads others ih =>
      cases index with
      | zero =>
          simp only [List.getElem?_cons_zero, Option.some.injEq, exists_eq_left']
          rw [leads, Option.some.injEq]
      | succ index =>
          simp only [List.getElem?_cons_succ]
          exact ih index

/-- Without links a find is a file, and the argument that it is at or below. -/
theorem Plain.isFind_iff (plain : Plain tree listing)
    (exist : List.Forall₂ (fun path place => tree.canonicalize path = some place) paths places)
    (find : Find) :
    IsFind tree listing paths find ↔ places[find.index]? = some find.place ∧
      find.final = find.place ++ find.route ∧ tree.Openable find.final := by
  constructor
  · rintro ⟨path, there, leads, way, openable⟩
    have goes := (plain.leads_iff _ _ _ (tree.there_of_canonicalize leads)).mp way
    exact ⟨(placed_iff exist find.index find.place).mp ⟨path, there, leads⟩, goes.1, openable⟩
  · rintro ⟨placed, final, openable⟩
    obtain ⟨path, there, leads⟩ := (placed_iff exist find.index find.place).mpr placed
    refine ⟨path, there, leads, ?_, openable⟩
    rw [plain.leads_iff _ _ _ (tree.there_of_canonicalize leads), ← final]
    exact ⟨rfl, tree.there_of_openable openable⟩

/-- Beside each other, no two arguments have a file in common. -/
theorem Plain.final_injective (plain : Plain tree listing)
    (exist : List.Forall₂ (fun path place => tree.canonicalize path = some place) paths places)
    (beside : places.Pairwise Beside) {one other : Find} (isOne : IsFind tree listing paths one)
    (isOther : IsFind tree listing paths other) (same : one.final = other.final) :
    one = other := by
  obtain ⟨there, final, -⟩ := (plain.isFind_iff exist one).mp isOne
  obtain ⟨otherThere, otherFinal, -⟩ := (plain.isFind_iff exist other).mp isOther
  have below : one.place <+: one.final := by
    rw [final]
    exact List.prefix_append _ _
  have otherBelow : other.place <+: one.final := by
    rw [same, otherFinal]
    exact List.prefix_append _ _
  have index : one.index = other.index := by
    by_contra different
    refine absurd beside ((overlapping_iff places).mp ?_)
    have overlap := List.prefix_or_prefix_of_prefix below otherBelow
    rcases Nat.lt_or_gt_of_ne different with before | after
    · exact ⟨_, _, _, _, before, there, otherThere, overlap⟩
    · exact ⟨_, _, _, _, after, otherThere, there, overlap.symm⟩
  rw [index, otherThere, Option.some.injEq] at there
  rw [final, otherFinal, there, List.append_cancel_left_eq] at same
  exact find_ext isOne isOther index same

/-- The name for the peer starts with the last name of the argument. -/
theorem publicPath_below (above below : Place) (name : List Char) :
    (canonical (above ++ name :: below)).drop (topPath (above ++ [name])).length =
      (name :: below).map .normal := by
  have split : canonical (above ++ name :: below) =
      canonical above ++ (name :: below).map .normal := by
    rw [canonical, canonical, List.map_append, List.cons_append]
  rw [topPath_snoc, split, List.drop_left]

theorem listed_iff (noRoot : ∀ place ∈ places, place ≠ []) (file : LocalFileMeta) :
    (∃ above name below size, above ++ [name] ∈ places ∧
      tree.node (above ++ name :: below) = some (.file size true) ∧
      file = ⟨render (canonical (above ++ name :: below)),
        render ((name :: below).map .normal), size.toNat⟩) ↔
    ∃ place ∈ places, ∃ below, tree.Openable (place ++ below) ∧
      file = fileMeta tree (topPath place) (place ++ below) := by
  have joined : ∀ (above below : Place) (name : List Char),
      above ++ [name] ++ below = above ++ name :: below := by
    intro above below name
    rw [List.append_assoc, List.singleton_append]
  constructor
  · rintro ⟨above, name, below, size, member, there, whole⟩
    refine ⟨_, member, below, ⟨size, ?_⟩, ?_⟩
    · rw [joined, there]
    · rw [whole, fileMeta, FileTree.fileSize, joined, there, publicPath_below]
  · rintro ⟨place, member, below, ⟨size, there⟩, whole⟩
    obtain ⟨above, name, split⟩ :=
      (List.eq_nil_or_concat place).resolve_left (noRoot place member)
    rw [List.concat_eq_append] at split
    rw [split] at member
    rw [split, joined] at there whole
    refine ⟨above, name, below, size, member, there, ?_⟩
    rw [whole, fileMeta, FileTree.fileSize, there, publicPath_below]

theorem Plain.listsFiles (plain : Plain tree listing)
    (exist : List.Forall₂ (fun path place => tree.canonicalize path = some place) paths places)
    (noRoot : ∀ place ∈ places, place ≠ []) (beside : places.Pairwise Beside)
    {finds : List Find} (once : finds.Nodup)
    (complete : ∀ find, find ∈ finds ↔ IsFind tree listing paths find) :
    ListsFiles tree places (finds.map (Find.meta_ tree)) := by
  constructor
  · rw [List.map_map, List.nodup_map_iff_inj_on once]
    intro one member other otherMember same
    have isOne := (complete one).mp member
    have isOther := (complete other).mp otherMember
    obtain ⟨path, -, -, -, openable⟩ := isOne
    obtain ⟨otherPath, -, -, -, otherOpenable⟩ := isOther
    have paths : render (canonical one.final) = render (canonical other.final) := same
    have parts := congrArg components paths
    rw [canonical, canonical, components_render_absolute _ (names_of_openable openable),
      components_render_absolute _ (names_of_openable otherOpenable)] at parts
    exact plain.final_injective exist beside ((complete one).mp member)
      ((complete other).mp otherMember) (canonical_injective parts)
  · intro file
    rw [listed_iff noRoot, List.mem_map]
    constructor
    · rintro ⟨find, member, same⟩
      obtain ⟨there, final, openable⟩ :=
        (plain.isFind_iff exist find).mp ((complete find).mp member)
      refine ⟨find.place, List.mem_of_getElem? there, find.route, ?_, ?_⟩
      · rw [← final]
        exact openable
      · rw [← same, Find.meta_, final]
    · rintro ⟨place, member, below, openable, same⟩
      obtain ⟨index, there⟩ := List.getElem?_of_mem member
      refine ⟨⟨index, place, below, place ++ below⟩, ?_, same.symm⟩
      exact (complete _).mpr ((plain.isFind_iff exist _).mpr ⟨there, rfl, openable⟩)

/-- The lengths are those of all the files on offer. -/
theorem Plain.sizes_eq (plain : Plain tree listing)
    (exist : List.Forall₂ (fun path place => tree.canonicalize path = some place) paths places)
    (beside : places.Pairwise Beside) {finds : List Find} (once : finds.Nodup)
    (complete : ∀ find, find ∈ finds ↔ IsFind tree listing paths find) :
    ((finds.map (Find.meta_ tree)).map LocalFileMeta.size).sum = totalSize tree places := by
  have finalsOnce : (finds.map Find.final).Nodup := by
    rw [List.nodup_map_iff_inj_on once]
    intro one member other otherMember same
    exact plain.final_injective exist beside ((complete one).mp member)
      ((complete other).mp otherMember) same
  have offers : (finds.map Find.final).Perm (offered tree places) := by
    rw [List.perm_ext_iff_of_nodup finalsOnce (offered_nodup tree places)]
    intro place
    rw [mem_offered, List.mem_map]
    constructor
    · rintro ⟨find, member, same⟩
      obtain ⟨there, final, openable⟩ :=
        (plain.isFind_iff exist find).mp ((complete find).mp member)
      rw [← same]
      refine ⟨openable, find.place, List.mem_of_getElem? there, ?_⟩
      rw [final]
      exact List.prefix_append _ _
    · rintro ⟨openable, top, member, below, whole⟩
      obtain ⟨index, there⟩ := List.getElem?_of_mem member
      refine ⟨⟨index, top, below, place⟩, ?_, rfl⟩
      exact (complete _).mpr ((plain.isFind_iff exist _).mpr ⟨there, whole.symm, openable⟩)
  have same : (finds.map (Find.meta_ tree)).map LocalFileMeta.size =
      (finds.map Find.final).map tree.fileSize := by
    rw [List.map_map, List.map_map]
    rfl
  rw [same, totalSize]
  exact (offers.map _).sum_eq

/-- Behind arguments that lie beside each other the walk returns exactly their files. -/
theorem Plain.walked (plain : Plain tree listing)
    (exist : List.Forall₂ (fun path place => tree.canonicalize path = some place) paths places)
    (noRoot : ∀ place ∈ places, place ≠ []) (beside : places.Pairwise Beside) (depth : Nat)
    (files : List LocalFileMeta)
    (walked : getFileMetadatas tree listing depth paths [] = .ok files) :
    ListsFiles tree places files ∧
      ((files.map LocalFileMeta.public_).map FileMeta.size).sum = totalSize tree places := by
  obtain ⟨finds, same, once, complete, -⟩ := getFileMetadatas_finds depth paths files walked
  rw [public_sizes, same]
  exact ⟨plain.listsFiles exist noRoot beside once complete,
    plain.sizes_eq exist beside once complete⟩

end Offers

/-! ## What is sent -/

/-- Followed deep enough, the call has this result. -/
def Returns (debug : Bool) (tree : FileTree) (listing : Listing) (paths : List (List Component))
    (response : Option (List Char)) (result : Except Stop (List LocalFileMeta)) : Prop :=
  result ≠ .error .deep ∧ ∃ depth, confirmSend debug tree listing depth paths response = result

def Confirmed (response : Option (List Char)) : Prop :=
  ∃ answer, response = some answer ∧ isYes answer = true

/-- Overlapping paths are refused, and otherwise exactly the files are returned once the user
confirms. -/
def SendsExactly (debug : Bool) (tree : FileTree) (listing : Listing)
    (paths : List (List Component)) (places : List Place) (response : Option (List Char)) : Prop :=
  ((∃ path1 path2, Returns debug tree listing paths response
      (.error (.overlappingPaths path1 path2))) ↔ Overlapping places) ∧
    (¬ Overlapping places → Confirmed response →
      ∃ files, Returns debug tree listing paths response (.ok files) ∧
        ListsFiles tree places files)

section Sends

variable {tree : FileTree} {listing : Listing} {paths : List (List Component)}
  {places : List Place}

theorem confirmSend_overlapping {path1 path2 : List Component}
    (refused : checkPaths tree paths = .error (.overlappingPaths path1 path2)) (debug : Bool)
    (depth : Nat) (response : Option (List Char)) :
    confirmSend debug tree listing depth paths response =
      .error (.overlappingPaths path1 path2) := by
  rw [confirmSend, refused]

section Answers

variable {depth : Nat} {files : List LocalFileMeta} {debug : Bool}
  (passed : checkPaths tree paths = .ok ())
  (walked : getFileMetadatas tree listing depth paths [] = .ok files)

include passed walked

theorem confirmSend_panicked {panic : Panic}
    (summed : sumSizes debug (files.map LocalFileMeta.public_) 0 = .error panic)
    (response : Option (List Char)) :
    confirmSend debug tree listing depth paths response = .error (.panicked panic) := by
  rw [confirmSend, passed]
  simp only [walked, summed]

theorem confirmSend_unanswered {total : Nat}
    (summed : sumSizes debug (files.map LocalFileMeta.public_) 0 = .ok total) :
    confirmSend debug tree listing depth paths none = .error .io := by
  rw [confirmSend, passed]
  simp only [walked, summed]

theorem confirmSend_answered {total : Nat}
    (summed : sumSizes debug (files.map LocalFileMeta.public_) 0 = .ok total)
    (answer : List Char) :
    confirmSend debug tree listing depth paths (some answer) =
      if isYes answer then .ok files else .error .userCancelledSend := by
  rw [confirmSend, passed]
  simp only [walked, summed]

end Answers

/-- Past the check no path is refused any more. -/
theorem Plain.not_refused (plain : Plain tree listing)
    (exist : ∀ path ∈ paths, ∃ place, tree.canonicalize path = some place)
    (passed : checkPaths tree paths = .ok ()) {debug : Bool} {depth : Nat}
    {response : Option (List Char)} {path1 path2 : List Component} :
    confirmSend debug tree listing depth paths response ≠
      .error (.overlappingPaths path1 path2) := by
  intro refused
  cases walked : getFileMetadatas tree listing depth paths [] with
  | error stop =>
      rw [confirmSend, passed] at refused
      simp only [walked, Except.error.injEq] at refused
      rw [refused] at walked
      rcases getFileMetadatas_error depth paths [] _ walked with
        unanswered | ⟨path, member, unclean⟩
      · exact unanswered ⟨nofun, fun _ => nofun⟩
      · obtain ⟨place, leads⟩ := exist path member
        exact unclean ⟨place, leads, fun final _ => plain.not_fails final⟩
  | ok files =>
      cases summed : sumSizes debug (files.map LocalFileMeta.public_) 0 with
      | error panic =>
          rw [confirmSend_panicked passed walked summed] at refused
          cases refused
      | ok total =>
          cases response with
          | none =>
              rw [confirmSend_unanswered passed walked summed] at refused
              cases refused
          | some answer =>
              rw [confirmSend_answered passed walked summed] at refused
              split at refused
              · cases refused
              · cases refused

/-- With overflow checks, what is sent adds up to less than 2^64. -/
theorem Plain.fits_of_sent (plain : Plain tree listing)
    (exist : List.Forall₂ (fun path place => tree.canonicalize path = some place) paths places)
    (noRoot : ∀ place ∈ places, place ≠ []) (beside : places.Pairwise Beside) {depth : Nat}
    {response : Option (List Char)} {files : List LocalFileMeta}
    (sent : confirmSend true tree listing depth paths response = .ok files) :
    totalSize tree places < 2 ^ 64 := by
  obtain ⟨passed, walked⟩ := confirmSend_ok sent
  obtain ⟨-, sum⟩ := plain.walked exist noRoot beside depth files walked
  by_contra tooMuch
  have summed := sumSizes_overflow (files.map LocalFileMeta.public_) 0
    (by rw [Nat.zero_add, sum]; exact Nat.not_lt.mp tooMuch) (Nat.two_pow_pos 64)
  rw [confirmSend_panicked passed walked summed] at sent
  cases sent

end Sends

/-- It does, but for a total size that overflows where overflows are checked. -/
theorem sendsExactly_iff (debug : Bool) (tree : FileTree) (listing : Listing)
    (paths : List (List Component)) (places : List Place) (response : Option (List Char))
    (plain : Plain tree listing)
    (exist : List.Forall₂ (fun path place => tree.canonicalize path = some place) paths places)
    (noRoot : ∀ place ∈ places, place ≠ []) :
    SendsExactly debug tree listing paths places response ↔
      Overlapping places ∨ ¬ Confirmed response ∨ debug = false ∨
        totalSize tree places < 2 ^ 64 := by
  have every := exists_place exist
  rcases checkPaths_cases paths places exist with ⟨passed, beside⟩ | ⟨refused, notBeside⟩
  · have apart : ¬ Overlapping places := fun overlapping =>
      (overlapping_iff places).mp overlapping beside
    have unrefused : ¬ ∃ path1 path2, Returns debug tree listing paths response
        (.error (.overlappingPaths path1 path2)) := by
      rintro ⟨path1, path2, -, depth, refused⟩
      exact plain.not_refused every passed refused
    constructor
    · rintro ⟨-, sends⟩
      by_cases confirmed : Confirmed response
      · obtain ⟨files, ⟨-, depth, sent⟩, -⟩ := sends apart confirmed
        cases debug with
        | false => exact Or.inr (Or.inr (Or.inl rfl))
        | true => exact Or.inr (Or.inr (Or.inr (plain.fits_of_sent exist noRoot beside sent)))
      · exact Or.inr (Or.inl confirmed)
    · intro condition
      refine ⟨iff_of_false unrefused apart, fun _ confirmed => ?_⟩
      have fits := (condition.resolve_left apart).resolve_left (not_not_intro confirmed)
      obtain ⟨answer, answered, yes⟩ := confirmed
      obtain ⟨depth, files, walked⟩ := plain.walk_returns paths every
      obtain ⟨lists, sum⟩ := plain.walked exist noRoot beside depth files walked
      obtain ⟨total, summed⟩ := sumSizes_ok debug (files.map LocalFileMeta.public_) 0
        fun checked => by
          rw [Nat.zero_add, sum]
          exact fits.resolve_left (by rw [checked]; exact Bool.noConfusion)
      refine ⟨files, ⟨nofun, depth, ?_⟩, lists⟩
      rw [answered, confirmSend_answered passed walked summed]
      exact if_pos yes
  · have overlapping : Overlapping places := (overlapping_iff places).mpr notBeside
    obtain ⟨path1, path2, refused⟩ := refused
    refine iff_of_true ⟨iff_of_true ⟨path1, path2, nofun, 0, ?_⟩ overlapping, ?_⟩
      (Or.inl overlapping)
    · exact confirmSend_overlapping refused debug 0 response
    · exact fun apart => absurd overlapping apart

theorem plain_full {tree : FileTree} (noLinks : ∀ entry ∈ tree.nodes, entry.2.isLink = false) :
    Plain tree (.full tree) := by
  constructor
  · intro place target found
    have notLink := noLinks (place, .link target) (mem_of_lookup found)
    cases notLink
  · intro place dir
    refine ⟨tree.namesIn place, ?_, tree.mem_namesIn place⟩
    exact if_pos dir

/-- Three files, each as long as a file can be. -/
def hugeNodes : List (Place × Node) :=
  [([], .dir), ([['x']], .file 9223372036854775807 true),
    ([['y']], .file 9223372036854775807 true), ([['z']], .file 9223372036854775807 true)]

theorem hugeNodes_isTree : IsTree hugeNodes := by decide

def hugeTree : FileTree := .ofNodes hugeNodes hugeNodes_isTree 40

def hugePlaces : List Place := [[['x']], [['y']], [['z']]]

theorem hugePlaces_beside : hugePlaces.Pairwise Beside := by
  simp [hugePlaces, Beside]

theorem hugePlaces_exist :
    List.Forall₂ (fun path place => hugeTree.canonicalize path = some place)
      (hugePlaces.map canonical) hugePlaces :=
  .cons (by decide) (.cons (by decide) (.cons (by decide) .nil))

theorem hugePlaces_noRoot : ∀ place ∈ hugePlaces, place ≠ [] := by decide

theorem hugeTree_plain : Plain hugeTree (.full hugeTree) := plain_full (by decide)

/-- A release build sends them. -/
theorem hugeFiles_sent :
    SendsExactly false hugeTree (.full hugeTree) (hugePlaces.map canonical) hugePlaces
      (some ['y']) :=
  (sendsExactly_iff false hugeTree (.full hugeTree) (hugePlaces.map canonical) hugePlaces
    (some ['y']) hugeTree_plain hugePlaces_exist hugePlaces_noRoot).mpr
    (Or.inr (Or.inr (Or.inl rfl)))

/-- A build that checks for overflow panics before it asks. -/
theorem hugeFiles_panic :
    Plain hugeTree (.full hugeTree) ∧
      List.Forall₂ (fun path place => hugeTree.canonicalize path = some place)
        (hugePlaces.map canonical) hugePlaces ∧
      (∀ place ∈ hugePlaces, place ≠ []) ∧
      confirmSend true hugeTree (.full hugeTree) 2 (hugePlaces.map canonical) (some ['y']) =
        .error (.panicked .overflow) ∧
      ¬ SendsExactly true hugeTree (.full hugeTree) (hugePlaces.map canonical) hugePlaces
        (some ['y']) := by
  refine ⟨hugeTree_plain, hugePlaces_exist, hugePlaces_noRoot, by decide, ?_⟩
  rintro ⟨-, sends⟩
  have apart : ¬ Overlapping hugePlaces := fun overlapping =>
    (overlapping_iff hugePlaces).mp overlapping hugePlaces_beside
  obtain ⟨files, ⟨-, depth, sent⟩, -⟩ := sends apart ⟨['y'], rfl, by decide⟩
  have fits := hugeTree_plain.fits_of_sent hugePlaces_exist hugePlaces_noRoot hugePlaces_beside sent
  exact absurd fits (by decide)

end Gday.Chat
