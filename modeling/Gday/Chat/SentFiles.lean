import Gday.Chat.Walk
import Gday.Chat.DownloadFolder

/-! # All that is offered

What `confirm_send` returns as a list of finds: for which argument, on which way, and which
file.  Every find is there once; the check before the walk passes where no argument lies
below another one. -/
set_option autoImplicit false
namespace Gday.Chat

open Gday.Lib.AsyncStream (Panic)
open Gday.Lib.LexicalPath Gday.Lib.Files

/-- A file with the argument that it was found for, and the way there. -/
structure Find where
  index : Nat
  place : Place
  route : List (List Char)
  final : Place
  deriving DecidableEq

def Find.meta_ (tree : FileTree) (find : Find) : LocalFileMeta :=
  fileMeta tree (topPath find.place) find.final

/-- An openable file, a way to it, and the argument where it starts. -/
def IsFind (tree : FileTree) (listing : Listing) (paths : List (List Component))
    (find : Find) : Prop :=
  ∃ path, paths[find.index]? = some path ∧ tree.canonicalize path = some find.place ∧
    Leads tree listing find.place find.route find.final ∧ tree.Openable find.final

section Finds

variable {tree : FileTree} {listing : Listing}

/-- The same find where another argument stands in front. -/
def Find.next (find : Find) : Find := { find with index := find.index + 1 }

theorem Find.next_injective : Function.Injective Find.next := by
  intro one other same
  have parts := (Find.mk.injEq ..).mp same
  exact (Find.mk.injEq ..).mpr ⟨Nat.succ.inj parts.1, parts.2⟩

/-- A file behind the first argument. -/
def Find.first (place : Place) (entry : List (List Char) × Place) : Find :=
  ⟨0, place, entry.1, entry.2⟩

theorem Find.first_injective (place : Place) : Function.Injective (Find.first place) := by
  intro one other same
  have parts := (Find.mk.injEq ..).mp same
  exact Prod.ext parts.2.2.1 parts.2.2.2

theorem isFind_first {path : List Component} {place : Place}
    (leads : tree.canonicalize path = some place) (paths : List (List Component))
    (start : Place) (route : List (List Char)) (final : Place) :
    IsFind tree listing (path :: paths) ⟨0, start, route, final⟩ ↔
      start = place ∧ Leads tree listing place route final ∧ tree.Openable final := by
  simp only [IsFind, List.getElem?_cons_zero, Option.some.injEq, exists_eq_left', leads]
  constructor
  · rintro ⟨same, way, openable⟩
    rw [← same] at way
    exact ⟨same.symm, way, openable⟩
  · rintro ⟨same, way, openable⟩
    rw [same]
    exact ⟨rfl, way, openable⟩

theorem isFind_next (path : List Component) (paths : List (List Component)) (find : Find) :
    IsFind tree listing (path :: paths) find.next ↔ IsFind tree listing paths find := by
  simp only [IsFind, Find.next, List.getElem?_cons_succ]

/-- The finds of the first argument and those of the others are all. -/
theorem mem_finds {path : List Component} {place : Place} {paths : List (List Component)}
    {found : List (List (List Char) × Place)} {finds : List Find}
    (leads : tree.canonicalize path = some place)
    (behind : Found tree listing (topPath place) place found)
    (complete : ∀ find, find ∈ finds ↔ IsFind tree listing paths find) (find : Find) :
    find ∈ found.map (Find.first place) ++ finds.map Find.next ↔
      IsFind tree listing (path :: paths) find := by
  obtain ⟨index, start, route, final⟩ := find
  rw [List.mem_append, List.mem_map, List.mem_map]
  cases index with
  | zero =>
      rw [isFind_first leads]
      constructor
      · rintro (⟨entry, member, isFirst⟩ | ⟨find, -, isNext⟩)
        · have parts := (Find.mk.injEq ..).mp isFirst
          rw [← parts.2.1, ← parts.2.2.1, ← parts.2.2.2]
          exact ⟨rfl, (behind.complete entry.1 entry.2).mp member⟩
        · exact absurd ((Find.mk.injEq ..).mp isNext).1 (Nat.succ_ne_zero _)
      · rintro ⟨isPlace, way⟩
        rw [isPlace]
        exact Or.inl ⟨(route, final), (behind.complete route final).mpr way, rfl⟩
  | succ index =>
      have isNext : IsFind tree listing (path :: paths) ⟨index + 1, start, route, final⟩ ↔
          IsFind tree listing paths ⟨index, start, route, final⟩ :=
        isFind_next path paths ⟨index, start, route, final⟩
      rw [isNext, ← complete]
      constructor
      · rintro (⟨entry, -, isFirst⟩ | ⟨find, member, same⟩)
        · exact absurd ((Find.mk.injEq ..).mp isFirst).1 (Nat.succ_ne_zero _).symm
        · have isFind : find = ⟨index, start, route, final⟩ := Find.next_injective same
          rw [← isFind]
          exact member
      · exact fun member => Or.inr ⟨_, member, rfl⟩

/-- By induction on the arguments, each of which comes in front of what is found for the
others. -/
theorem exists_finds (paths : List (List Component))
    (walks : List (Place × List (List (List Char) × Place)))
    (all : AllFound tree listing paths walks) :
    ∃ finds : List Find, metas tree walks = finds.map (Find.meta_ tree) ∧ finds.Nodup ∧
      (∀ find, find ∈ finds ↔ IsFind tree listing paths find) ∧
      ∀ find ∈ finds, topPath find.place <+: canonical find.final := by
  induction all with
  | nil =>
      refine ⟨[], rfl, List.nodup_nil, fun find => ?_, List.forall_mem_nil _⟩
      constructor
      · exact fun member => absurd member List.not_mem_nil
      · rintro ⟨path, there, -⟩
        cases there
  | @cons path walk paths walks first others ih =>
      obtain ⟨place, found⟩ := walk
      obtain ⟨leads, behind⟩ := first
      obtain ⟨finds, same, once, complete, inside⟩ := ih
      refine ⟨found.map (Find.first place) ++ finds.map Find.next, ?_, ?_,
        mem_finds leads behind complete, ?_⟩
      · rw [metas, List.flatMap_cons, List.map_append, List.map_map, List.map_map, ← metas, same]
        rfl
      · refine List.nodup_append.mpr ⟨behind.nodup.map (Find.first_injective place),
          once.map Find.next_injective, ?_⟩
        intro one member other otherMember same
        obtain ⟨entry, -, isFirst⟩ := List.mem_map.mp member
        obtain ⟨find, -, isNext⟩ := List.mem_map.mp otherMember
        rw [← isFirst, ← isNext] at same
        exact absurd ((Find.mk.injEq ..).mp same).1 (Nat.succ_ne_zero _).symm
      · intro find member
        rcases List.mem_append.mp member with first | later
        · obtain ⟨entry, found, isFirst⟩ := List.mem_map.mp first
          rw [← isFirst]
          exact behind.inside entry found
        · obtain ⟨other, found, isNext⟩ := List.mem_map.mp later
          rw [← isNext]
          exact inside other found

/-- Every file is pushed once for every way to it, below the folder of its argument. -/
theorem getFileMetadatas_finds (depth : Nat) (paths : List (List Component))
    (files : List LocalFileMeta)
    (walked : getFileMetadatas tree listing depth paths [] = .ok files) :
    ∃ finds : List Find, files = finds.map (Find.meta_ tree) ∧ finds.Nodup ∧
      (∀ find, find ∈ finds ↔ IsFind tree listing paths find) ∧
      ∀ find ∈ finds, topPath find.place <+: canonical find.final := by
  obtain ⟨walks, all, same⟩ := getFileMetadatas_ok depth paths [] files walked
  obtain ⟨finds, these, once, complete, inside⟩ := exists_finds paths walks all
  exact ⟨finds, by rw [same, these, List.nil_append], once, complete, inside⟩

theorem confirmSend_ok {debug : Bool} {depth : Nat} {paths : List (List Component)}
    {response : Option (List Char)} {files : List LocalFileMeta}
    (sent : confirmSend debug tree listing depth paths response = .ok files) :
    checkPaths tree paths = .ok () ∧
      getFileMetadatas tree listing depth paths [] = .ok files := by
  unfold confirmSend at sent
  cases checked : checkPaths tree paths with
  | error stop =>
      rw [checked] at sent
      cases sent
  | ok passed =>
      rw [checked] at sent
      simp only at sent
      cases walked : getFileMetadatas tree listing depth paths [] with
      | error stop =>
          rw [walked] at sent
          cases sent
      | ok found =>
          rw [walked] at sent
          simp only at sent
          cases summed : sumSizes debug (found.map LocalFileMeta.public_) 0 with
          | error panic =>
              rw [summed] at sent
              cases sent
          | ok total =>
              rw [summed] at sent
              cases response with
              | none => cases sent
              | some answer =>
                  simp only at sent
                  split at sent
                  · exact ⟨rfl, sent⟩
                  · cases sent

end Finds

/-! ## The check before the walk -/

/-- None of the two is at or below the other. -/
def Beside (one other : Place) : Prop := ¬ one <+: other ∧ ¬ other <+: one

section Checks

variable {tree : FileTree}

theorem checkPath_cases (path1 : List Component) (canonical1 : Place)
    (paths : List (List Component)) (places : List Place)
    (exist : List.Forall₂ (fun path place => tree.canonicalize path = some place) paths places) :
    checkPath tree path1 canonical1 paths = .ok () ∧
        (∀ place ∈ places, Beside canonical1 place) ∨
      (∃ path2, checkPath tree path1 canonical1 paths = .error (.overlappingPaths path1 path2)) ∧
        ¬ ∀ place ∈ places, Beside canonical1 place := by
  induction exist with
  | nil => exact Or.inl ⟨rfl, List.forall_mem_nil _⟩
  | @cons path2 canonical2 paths places leads others ih =>
      rw [checkPath, leads]
      simp only [canonical_prefix_iff]
      by_cases overlap : canonical2 <+: canonical1 ∨ canonical1 <+: canonical2
      · rw [if_pos overlap]
        refine Or.inr ⟨⟨path2, rfl⟩, fun all => ?_⟩
        have beside := all canonical2 List.mem_cons_self
        exact overlap.elim beside.2 beside.1
      · rw [if_neg overlap]
        have beside : Beside canonical1 canonical2 :=
          ⟨fun below => overlap (Or.inr below), fun above => overlap (Or.inl above)⟩
        rcases ih with ⟨passed, all⟩ | ⟨refused, notAll⟩
        · exact Or.inl ⟨passed, List.forall_mem_cons.mpr ⟨beside, all⟩⟩
        · exact Or.inr ⟨refused, fun all => notAll (List.forall_mem_cons.mp all).2⟩

/-- The check passes exactly where every argument lies beside all the others. -/
theorem checkPaths_cases (paths : List (List Component)) (places : List Place)
    (exist : List.Forall₂ (fun path place => tree.canonicalize path = some place) paths places) :
    checkPaths tree paths = .ok () ∧ places.Pairwise Beside ∨
      (∃ path1 path2, checkPaths tree paths = .error (.overlappingPaths path1 path2)) ∧
        ¬ places.Pairwise Beside := by
  induction exist with
  | nil => exact Or.inl ⟨rfl, .nil⟩
  | @cons path1 canonical1 paths places leads others ih =>
      rw [checkPaths, leads]
      simp only
      rcases checkPath_cases path1 canonical1 paths places others with
        ⟨passed, all⟩ | ⟨⟨path2, refused⟩, notAll⟩
      · rw [passed]
        rcases ih with ⟨later, pairs⟩ | ⟨later, notPairs⟩
        · exact Or.inl ⟨later, List.pairwise_cons.mpr ⟨all, pairs⟩⟩
        · exact Or.inr ⟨later, fun pairs => notPairs (List.pairwise_cons.mp pairs).2⟩
      · rw [refused]
        exact Or.inr ⟨⟨path1, path2, rfl⟩, fun pairs => notAll (List.pairwise_cons.mp pairs).1⟩

end Checks

/-! ## What a file is called -/

section Names

variable {tree : FileTree}

theorem components_render_drop (place : Place) (count : Nat)
    (valid : ∀ name ∈ place, IsName name) :
    components (render ((canonical place).drop count)) = (canonical place).drop count := by
  cases count with
  | zero => exact components_render_absolute place valid
  | succ count =>
      have behind : (canonical place).drop (count + 1) = (place.drop count).map .normal := by
        rw [canonical, List.drop_succ_cons, List.map_drop]
      rw [behind]
      exact components_render _ fun name member => valid name (List.mem_of_mem_drop member)

theorem Find.publicPath_eq (find : Find) :
    (find.meta_ tree).publicPath =
      render ((canonical find.final).drop (topPath find.place).length) := rfl

theorem names_of_openable {place : Place} (openable : tree.Openable place) :
    ∀ name ∈ place, IsName name := by
  exact tree.names_of_node (tree.there_of_openable openable)

theorem Find.components_publicPath (find : Find) (openable : tree.Openable find.final) :
    components (find.meta_ tree).publicPath =
      (canonical find.final).drop (topPath find.place).length := by
  rw [publicPath_eq, components_render_drop _ _ (names_of_openable openable)]

/-- Where the receiver puts it: in the folder, but for an absolute path. -/
theorem Find.destination_eq (find : Find) (openable : tree.Openable find.final) :
    destination (find.meta_ tree).public_ =
      if topPath find.place = [] then canonical find.final
      else .normal folderName :: (canonical find.final).drop (topPath find.place).length := by
  have valid := names_of_openable openable
  have whole : (find.meta_ tree).public_.path =
      render ((canonical find.final).drop (topPath find.place).length) := rfl
  cases top : topPath find.place with
  | nil =>
      rw [top, List.length_nil, List.drop_zero] at whole
      have parts := components_render_absolute find.final valid
      have absolute : isAbsolute (render (canonical find.final)) = true := by
        cases find.final with
        | nil => rfl
        | cons name names => rfl
      rw [destination_absolute _ (by rw [whole]; exact absolute), whole, if_pos rfl]
      have split := parts
      rw [components] at split
      have isAbs : isAbsolute (render (.rootDir :: find.final.map .normal)) = true := absolute
      rw [isAbs, if_pos rfl] at split
      exact split
  | cons first rest =>
      rw [top, List.length_cons] at whole
      have behind : (canonical find.final).drop (rest.length + 1) =
          (find.final.drop rest.length).map .normal := by
        rw [canonical, List.drop_succ_cons, List.map_drop]
      rw [behind] at whole
      have fine : ∀ name ∈ find.final.drop rest.length, IsName name :=
        fun name member => valid name (List.mem_of_mem_drop member)
      rw [destination_relative _ (by rw [whole]; exact isAbsolute_render _ fine), whole,
        segments_render _ fine, if_neg (List.cons_ne_nil _ _), List.length_cons, behind]

theorem topPath_snoc (place : Place) (name : List Char) :
    topPath (place ++ [name]) = canonical place := by
  have last : (canonical (place ++ [name])).getLast? = some (.normal name) := by
    rw [← canonical_snoc, List.getLast?_concat]
  rw [topPath, parent, last, ← canonical_snoc, List.dropLast_concat]
  rfl

end Names

end Gday.Chat
