import Gday.Chat.SentFiles

/-! # Files that are received at one path

The check of `confirm_send` compares the arguments, and the names that the peer is told
leave out the folders of the arguments.  Two files share a name where they are at the same
place below two such folders, and a file shares its own where links make two ways to it. -/
set_option autoImplicit false
namespace Gday.Chat

open Gday.Lib.LexicalPath Gday.Lib.Files

/-- From arguments in one folder there are no two ways to a file. -/
def ReachedOnce (tree : FileTree) (listing : Listing) (paths : List (List Component)) : Prop :=
  ∀ one other, IsFind tree listing paths one → IsFind tree listing paths other →
    topPath one.place = topPath other.place → one.final = other.final →
      one.index = other.index ∧ one.route = other.route

/-- No two files are at the same place below the different folders of their arguments. -/
def PlacedApart (tree : FileTree) (listing : Listing) (paths : List (List Component)) : Prop :=
  ∀ one other, IsFind tree listing paths one → IsFind tree listing paths other →
    topPath one.place ≠ topPath other.place →
      ∀ below, canonical one.final = topPath one.place ++ below →
        canonical other.final ≠ topPath other.place ++ below

section Finds

variable {tree : FileTree} {listing : Listing} {paths : List (List Component)}

theorem leads_functional {place one other : Place} {route : List (List Char)}
    (leads : Leads tree listing place route one) (others : Leads tree listing place route other) :
    one = other := by
  induction leads with
  | here place =>
      cases others with
      | here => rfl
  | into place next final name rest opens later ih =>
      cases others with
      | into _ otherNext _ _ _ otherOpens otherLater =>
          have same := opens.2.2.symm.trans otherOpens.2.2
          rw [Option.some.injEq] at same
          rw [← same] at otherLater
          exact ih otherLater

/-- The argument and the way say which file it is. -/
theorem find_ext {one other : Find} (isOne : IsFind tree listing paths one)
    (isOther : IsFind tree listing paths other) (index : one.index = other.index)
    (route : one.route = other.route) : one = other := by
  obtain ⟨path, there, leads, goes, -⟩ := isOne
  obtain ⟨otherPath, otherThere, otherLeads, otherGoes, -⟩ := isOther
  rw [index, otherThere, Option.some.injEq] at there
  rw [there, leads, Option.some.injEq] at otherLeads
  rw [← otherLeads, ← route] at otherGoes
  have final := leads_functional goes otherGoes
  cases one
  cases other
  exact (Find.mk.injEq ..).mpr ⟨index, otherLeads, route, final⟩

theorem samePublicPath_iff {one other : Find} (isOne : IsFind tree listing paths one)
    (isOther : IsFind tree listing paths other)
    (inside : topPath one.place <+: canonical one.final)
    (otherInside : topPath other.place <+: canonical other.final) :
    (one.meta_ tree).publicPath = (other.meta_ tree).publicPath ↔
      ∃ below, canonical one.final = topPath one.place ++ below ∧
        canonical other.final = topPath other.place ++ below := by
  obtain ⟨path, -, -, -, openable⟩ := isOne
  obtain ⟨otherPath, -, -, -, otherOpenable⟩ := isOther
  obtain ⟨below, split⟩ := inside
  obtain ⟨otherBelow, otherSplit⟩ := otherInside
  have mine := one.components_publicPath openable
  have theirs := other.components_publicPath otherOpenable
  rw [← split, List.drop_left] at mine
  rw [← otherSplit, List.drop_left] at theirs
  constructor
  · intro same
    rw [same, theirs] at mine
    exact ⟨below, split.symm, by rw [← otherSplit, mine]⟩
  · rintro ⟨both, first, second⟩
    rw [← split, List.append_cancel_left_eq] at first
    rw [← otherSplit, List.append_cancel_left_eq] at second
    rw [Find.publicPath_eq, Find.publicPath_eq, ← split, ← otherSplit, List.drop_left,
      List.drop_left, first, second]

/-- Names are shared exactly where a file is reached twice or two are placed alike. -/
theorem publicPaths_iff (finds : List Find) (once : finds.Nodup)
    (complete : ∀ find, find ∈ finds ↔ IsFind tree listing paths find)
    (inside : ∀ find ∈ finds, topPath find.place <+: canonical find.final) :
    ((finds.map (Find.meta_ tree)).map LocalFileMeta.publicPath).Nodup ↔
      ReachedOnce tree listing paths ∧ PlacedApart tree listing paths := by
  rw [List.map_map, List.nodup_map_iff_inj_on once]
  constructor
  · intro injective
    refine ⟨fun one other isOne isOther folder final => ?_,
      fun one other isOne isOther folders below split otherSplit => ?_⟩
    · have member := (complete one).mpr isOne
      have otherMember := (complete other).mpr isOther
      obtain ⟨below, split⟩ := inside one member
      have same := injective one member other otherMember
        ((samePublicPath_iff isOne isOther (inside one member) (inside other otherMember)).mpr
          ⟨below, split.symm, by rw [← final, ← folder, split]⟩)
      rw [same]
      exact ⟨rfl, rfl⟩
    · have member := (complete one).mpr isOne
      have otherMember := (complete other).mpr isOther
      have same := injective one member other otherMember
        ((samePublicPath_iff isOne isOther (inside one member) (inside other otherMember)).mpr
          ⟨below, split, otherSplit⟩)
      exact folders (by rw [same])
  · rintro ⟨reachedOnce, placedApart⟩ one member other otherMember same
    have isOne := (complete one).mp member
    have isOther := (complete other).mp otherMember
    obtain ⟨below, split, otherSplit⟩ := (samePublicPath_iff isOne isOther (inside one member)
      (inside other otherMember)).mp same
    by_cases folder : topPath one.place = topPath other.place
    · have final : one.final = other.final := by
        apply canonical_injective
        rw [split, otherSplit, folder]
      obtain ⟨index, route⟩ := reachedOnce one other isOne isOther folder final
      exact find_ext isOne isOther index route
    · exact absurd otherSplit (placedApart one other isOne isOther folder below split)

/-- Files overwrite each other exactly where they share a name. -/
theorem destinations_iff (finds : List Find) (once : finds.Nodup)
    (complete : ∀ find, find ∈ finds ↔ IsFind tree listing paths find) :
    ((finds.map (Find.meta_ tree)).map fun file => destination file.public_).Nodup ↔
      ((finds.map (Find.meta_ tree)).map LocalFileMeta.publicPath).Nodup := by
  rw [List.map_map, List.map_map, List.nodup_map_iff_inj_on once, List.nodup_map_iff_inj_on once]
  have same : ∀ one ∈ finds, ∀ other ∈ finds,
      destination (one.meta_ tree).public_ = destination (other.meta_ tree).public_ ↔
        (one.meta_ tree).publicPath = (other.meta_ tree).publicPath := by
    intro one member other otherMember
    obtain ⟨path, -, -, -, openable⟩ := (complete one).mp member
    obtain ⟨otherPath, -, -, -, otherOpenable⟩ := (complete other).mp otherMember
    constructor
    · intro destinations
      have mine := one.destination_eq openable
      have theirs := other.destination_eq otherOpenable
      rw [destinations, theirs] at mine
      rw [Find.publicPath_eq, Find.publicPath_eq]
      by_cases top : topPath one.place = []
      · by_cases otherTop : topPath other.place = []
        · rw [if_pos top, if_pos otherTop] at mine
          rw [top, otherTop, mine]
        · rw [if_pos top, if_neg otherTop] at mine
          cases mine
      · by_cases otherTop : topPath other.place = []
        · rw [if_neg top, if_pos otherTop] at mine
          cases mine
        · rw [if_neg top, if_neg otherTop, List.cons.injEq] at mine
          rw [mine.2]
    · intro names
      have paths : (one.meta_ tree).public_.path = (other.meta_ tree).public_.path := names
      rw [destination, destination, paths]
  constructor
  · intro injective one member other otherMember names
    exact injective one member other otherMember ((same one member other otherMember).mpr names)
  · intro injective one member other otherMember destinations
    exact injective one member other otherMember
      ((same one member other otherMember).mp destinations)

end Finds

/-- What is offered has different names, and so different destinations, exactly where nothing
is reached twice from one folder and nothing is placed alike below two. -/
theorem distinct_iff (debug : Bool) (tree : FileTree) (listing : Listing) (depth : Nat)
    (paths : List (List Component)) (response : Option (List Char)) (files : List LocalFileMeta)
    (sent : confirmSend debug tree listing depth paths response = .ok files) :
    ((files.map LocalFileMeta.publicPath).Nodup ↔
      ReachedOnce tree listing paths ∧ PlacedApart tree listing paths) ∧
    ((files.map fun file => destination file.public_).Nodup ↔
      (files.map LocalFileMeta.publicPath).Nodup) := by
  obtain ⟨-, walked⟩ := confirmSend_ok sent
  obtain ⟨finds, same, once, complete, inside⟩ := getFileMetadatas_finds depth paths files walked
  rw [same]
  exact ⟨publicPaths_iff finds once complete inside, destinations_iff finds once complete⟩

/-- `/a/x` and `/b/x` are two files; beside the second one is `/b/y`. -/
def namesakeNodes : List (Place × Node) :=
  [([], .dir), ([['a']], .dir), ([['a'], ['x']], .file 1 true), ([['b']], .dir),
    ([['b'], ['x']], .file 2 true), ([['b'], ['y']], .file 2 true)]

theorem namesakeNodes_isTree : IsTree namesakeNodes := by decide

def namesakeTree : FileTree := .ofNodes namesakeNodes namesakeNodes_isTree 40

def namesakeNames : List (Place × List (List Char)) :=
  [([], [['a'], ['b']]), ([['a']], [['x']]), ([['b']], [['x'], ['y']])]

theorem namesakeNames_once : ∀ entry ∈ namesakeNames, entry.2.Nodup := by decide

def namesakeListing : Listing := .ofNames namesakeNames namesakeNames_once

def pathAX : List Component := [.rootDir, .normal ['a'], .normal ['x']]

def pathBX : List Component := [.rootDir, .normal ['b'], .normal ['x']]

def pathBY : List Component := [.rootDir, .normal ['b'], .normal ['y']]

/-- `/a/x` and `/b/y` have different names. -/
theorem twoNames_distinct :
    (([⟨['/', 'a', '/', 'x'], ['x'], 1⟩, ⟨['/', 'b', '/', 'y'], ['y'], 2⟩] :
        List LocalFileMeta).map LocalFileMeta.publicPath).Nodup ↔
      ReachedOnce namesakeTree namesakeListing [pathAX, pathBY] ∧
        PlacedApart namesakeTree namesakeListing [pathAX, pathBY] :=
  (distinct_iff false namesakeTree namesakeListing 1 [pathAX, pathBY] (some ['y']) _
    (by decide)).1

/-- Both are offered as `x`. -/
theorem namesakes_share :
    ∃ files, confirmSend false namesakeTree namesakeListing 1 [pathAX, pathBX] (some ['y']) =
        .ok files ∧
      files.map LocalFileMeta.publicPath = [['x'], ['x']] ∧
      ¬ (files.map fun file => destination file.public_).Nodup := by
  refine ⟨[⟨['/', 'a', '/', 'x'], ['x'], 1⟩, ⟨['/', 'b', '/', 'x'], ['x'], 2⟩], ?_, rfl, ?_⟩
  · decide
  · decide

end Gday.Chat
