import Gday.Chat.FileDialog

/-! # What a walk finds

The walk as a relation: which directory leads into which, by what name.  A walk that
returns its files found every openable file once for every way that leads to it, and met
no directory that it could not read. -/
set_option autoImplicit false
namespace Gday.Chat

open Gday.Lib.AsyncStream (Panic)
open Gday.Lib.LexicalPath Gday.Lib.Files

section Relations

variable (tree : FileTree) (listing : Listing)

/-- The directory has an entry of this name, which is the other place or a link to it. -/
def Opens (place : Place) (name : List Char) (next : Place) : Prop :=
  tree.node place = some .dir ∧
    (∃ entries, listing.entries place = some entries ∧ some name ∈ entries) ∧
    tree.canonicalize (canonical (place ++ [name])) = some next

def Enters (place next : Place) : Prop := ∃ name, Opens tree listing place name next

/-- One name after the other. -/
inductive Leads : Place → List (List Char) → Place → Prop where
  | here (place : Place) : Leads place [] place
  | into (place next final : Place) (name : List Char) (rest : List (List Char))
      (opens : Opens tree listing place name next) (later : Leads next rest final) :
      Leads place (name :: rest) final

abbrev Reaches : Place → Place → Prop := Relation.ReflTransGen (Enters tree listing)

/-- A directory that cannot be read, or with an entry that leads nowhere. -/
def Fails (place : Place) : Prop :=
  tree.node place = some .dir ∧ ∀ entries, listing.entries place = some entries →
    none ∈ entries ∨
      ∃ name, some name ∈ entries ∧ tree.canonicalize (canonical (place ++ [name])) = none

/-- What is pushed for a file. -/
def fileMeta (topPath : List Component) (place : Place) : LocalFileMeta :=
  ⟨render (canonical place), render ((canonical place).drop topPath.length),
    tree.fileSize place⟩

/-- The openable files behind a place, each with a way to it, and each way once. -/
structure Found (topPath : List Component) (place : Place)
    (found : List (List (List Char) × Place)) : Prop where
  nodup : found.Nodup
  complete : ∀ route final, (route, final) ∈ found ↔
    Leads tree listing place route final ∧ tree.Openable final
  inside : ∀ entry ∈ found, topPath <+: canonical entry.2
  clean : ∀ final, Reaches tree listing place final → ¬ Fails tree listing final

end Relations

section Walks

variable {tree : FileTree} {listing : Listing} {topPath : List Component}

theorem Leads.reaches {place final : Place} {route : List (List Char)}
    (leads : Leads tree listing place route final) : Reaches tree listing place final := by
  induction leads with
  | here place => exact .refl
  | into place next final name rest opens later ih => exact .head ⟨name, opens⟩ ih

theorem leads_of_reaches {place final : Place} (reaches : Reaches tree listing place final) :
    ∃ route, Leads tree listing place route final := by
  induction reaches using Relation.ReflTransGen.head_induction_on with
  | refl => exact ⟨[], .here _⟩
  | head enters later ih =>
      obtain ⟨name, opens⟩ := enters
      obtain ⟨route, leads⟩ := ih
      exact ⟨name :: route, .into _ _ _ _ _ opens leads⟩

/-- From what is no directory nothing leads on. -/
theorem leads_file {place final : Place} {route : List (List Char)}
    (file : tree.node place ≠ some .dir) (leads : Leads tree listing place route final) :
    route = [] ∧ final = place := by
  cases leads with
  | here => exact ⟨rfl, rfl⟩
  | into _ next _ name rest opens later => exact absurd opens.1 file

theorem found_file {place : Place} (file : tree.Openable place)
    (inside : topPath <+: canonical place) :
    Found tree listing topPath place [([], place)] := by
  obtain ⟨size, there⟩ := file
  have notDir : tree.node place ≠ some .dir := by
    rw [there]
    exact nofun
  refine ⟨List.nodup_singleton _, fun route final => ?_, ?_, fun final reaches fails => ?_⟩
  · rw [List.mem_singleton, Prod.mk.injEq]
    constructor
    · rintro ⟨noRoute, same⟩
      rw [noRoute, same]
      exact ⟨.here place, size, there⟩
    · exact fun ⟨leads, _⟩ => leads_file notDir leads
  · intro entry member
    rw [List.mem_singleton.mp member]
    exact inside
  · obtain ⟨route, leads⟩ := leads_of_reaches reaches
    rw [(leads_file notDir leads).2] at fails
    exact notDir fails.1

theorem found_nothing {place : Place} (notDir : tree.node place ≠ some .dir)
    (notFile : ¬ tree.Openable place) : Found tree listing topPath place [] := by
  refine ⟨List.nodup_nil, fun route final => ?_, fun entry member => absurd member List.not_mem_nil,
    fun final reaches fails => ?_⟩
  · constructor
    · exact fun member => absurd member List.not_mem_nil
    · rintro ⟨leads, openable⟩
      rw [(leads_file notDir leads).2] at openable
      exact absurd openable notFile
  · obtain ⟨route, leads⟩ := leads_of_reaches reaches
    rw [(leads_file notDir leads).2] at fails
    exact notDir fails.1

/-- What is found behind the entries of a directory. -/
structure FoundBehind (tree : FileTree) (listing : Listing) (topPath : List Component)
    (place : Place) (entries : List (Option (List Char)))
    (found : List (List (List Char) × Place)) : Prop where
  nodup : found.Nodup
  complete : ∀ route final, (route, final) ∈ found ↔
    ∃ name rest next, route = name :: rest ∧ some name ∈ entries ∧
      tree.canonicalize (canonical (place ++ [name])) = some next ∧
      Leads tree listing next rest final ∧ tree.Openable final
  inside : ∀ entry ∈ found, topPath <+: canonical entry.2
  readable : none ∉ entries
  clean : ∀ name, some name ∈ entries → ∃ next,
    tree.canonicalize (canonical (place ++ [name])) = some next ∧
      ∀ final, Reaches tree listing next final → ¬ Fails tree listing final

theorem FoundBehind.nil (place : Place) : FoundBehind tree listing topPath place [] [] := by
  refine ⟨List.nodup_nil, fun route final => ?_, ?_, List.not_mem_nil, ?_⟩
  · constructor
    · exact fun member => absurd member List.not_mem_nil
    · rintro ⟨name, rest, next, -, member, -⟩
      exact absurd member List.not_mem_nil
  · exact fun entry member => absurd member List.not_mem_nil
  · exact fun name member => absurd member List.not_mem_nil

theorem FoundBehind.cons {place next : Place} {name : List Char}
    {entries : List (Option (List Char))} {first others : List (List (List Char) × Place)}
    (opens : tree.canonicalize (canonical (place ++ [name])) = some next)
    (behindFirst : Found tree listing topPath next first)
    (behind : FoundBehind tree listing topPath place entries others)
    (once : some name ∉ entries) :
    FoundBehind tree listing topPath place (some name :: entries)
      (first.map (fun entry => (name :: entry.1, entry.2)) ++ others) := by
  have starts : ∀ route final,
      (route, final) ∈ first.map (fun entry => (name :: entry.1, entry.2)) ↔
        ∃ rest, route = name :: rest ∧ (rest, final) ∈ first := by
    intro route final
    rw [List.mem_map]
    constructor
    · rintro ⟨⟨rest, place⟩, member, same⟩
      rw [Prod.mk.injEq] at same
      exact ⟨rest, same.1.symm, by rw [← same.2]; exact member⟩
    · rintro ⟨rest, same, member⟩
      exact ⟨(rest, final), member, by rw [same]⟩
  refine ⟨?_, fun route final => ?_, ?_, ?_, ?_⟩
  · refine List.nodup_append.mpr ⟨?_, behind.nodup, ?_⟩
    · apply behindFirst.nodup.map
      rintro ⟨rest, place⟩ ⟨otherRest, otherPlace⟩ same
      simp only [Prod.mk.injEq, List.cons.injEq, true_and] at same ⊢
      exact same
    · rintro ⟨route, final⟩ mine ⟨otherRoute, otherFinal⟩ theirs same
      obtain ⟨rest, starting, -⟩ := (starts route final).mp mine
      obtain ⟨otherName, otherRest, -, otherStarting, listed, -⟩ :=
        (behind.complete otherRoute otherFinal).mp theirs
      rw [Prod.mk.injEq, starting, otherStarting, List.cons.injEq] at same
      rw [← same.1.1] at listed
      exact once listed
  · rw [List.mem_append, starts, behind.complete]
    constructor
    · rintro (⟨rest, same, member⟩ | ⟨other, rest, there, same, listed, later⟩)
      · have leads := (behindFirst.complete rest final).mp member
        exact ⟨name, rest, next, same, List.mem_cons_self, opens, leads⟩
      · exact ⟨other, rest, there, same, List.mem_cons_of_mem _ listed, later⟩
    · rintro ⟨other, rest, there, same, listed, opened, leads⟩
      rcases List.mem_cons.mp listed with head | listed
      · left
        rw [Option.some.inj head] at same opened
        rw [opens, Option.some.injEq] at opened
        rw [← opened] at leads
        exact ⟨rest, same, (behindFirst.complete rest final).mpr leads⟩
      · exact Or.inr ⟨other, rest, there, same, listed, opened, leads⟩
  · intro entry member
    rcases List.mem_append.mp member with mine | theirs
    · obtain ⟨⟨rest, final⟩, found, same⟩ := List.mem_map.mp mine
      rw [← same]
      exact behindFirst.inside (rest, final) found
    · exact behind.inside entry theirs
  · intro member
    rcases List.mem_cons.mp member with head | member
    · cases head
    · exact behind.readable member
  · intro other listed
    rcases List.mem_cons.mp listed with head | listed
    · rw [Option.some.inj head]
      exact ⟨next, opens, behindFirst.clean⟩
    · exact behind.clean other listed

/-- The directory itself, once all its entries were visited. -/
theorem FoundBehind.found {place : Place} {entries : List (Option (List Char))}
    {found : List (List (List Char) × Place)} (dir : tree.node place = some .dir)
    (listed : listing.entries place = some entries)
    (behind : FoundBehind tree listing topPath place entries found) :
    Found tree listing topPath place found := by
  refine ⟨behind.nodup, fun route final => ?_, behind.inside, fun final reaches fails => ?_⟩
  · rw [behind.complete]
    constructor
    · rintro ⟨name, rest, next, same, member, opens, leads, openable⟩
      rw [same]
      exact ⟨.into place next final name rest ⟨dir, ⟨entries, listed, member⟩, opens⟩ leads,
        openable⟩
    · rintro ⟨leads, openable⟩
      cases leads with
      | here =>
          obtain ⟨size, file⟩ := openable
          rw [dir] at file
          cases file
      | into _ next _ name rest opens later =>
          obtain ⟨-, ⟨others, there, member⟩, opened⟩ := opens
          rw [listed, Option.some.injEq] at there
          rw [← there] at member
          exact ⟨name, rest, next, rfl, member, opened, later, openable⟩
  · cases reaches using Relation.ReflTransGen.head_induction_on with
    | refl =>
        rcases fails.2 entries listed with broken | ⟨name, member, nowhere⟩
        · exact behind.readable broken
        · obtain ⟨next, opens, -⟩ := behind.clean name member
          rw [opens] at nowhere
          cases nowhere
    | head enters later =>
        obtain ⟨name, -, ⟨others, there, member⟩, opened⟩ := enters
        rw [listed, Option.some.injEq] at there
        rw [← there] at member
        obtain ⟨next, opens, clean⟩ := behind.clean name member
        rw [opens, Option.some.injEq] at opened
        rw [← opened] at later
        exact clean final later fails

/-! ## One visit -/

section Visits

variable {depth : Nat} {path : List Component} {place : Place} (files : List LocalFileMeta)

theorem helper_missing (nowhere : tree.canonicalize path = none) :
    getFileMetadatasHelper tree listing topPath (depth + 1) path files = .error .io := by
  rw [getFileMetadatasHelper, nowhere]

theorem helper_unread (leads : tree.canonicalize path = some place)
    (dir : tree.node place = some .dir) (unread : listing.entries place = none) :
    getFileMetadatasHelper tree listing topPath (depth + 1) path files = .error .io := by
  rw [getFileMetadatasHelper, leads]
  simp only [dir, unread]

theorem helper_dir {entries : List (Option (List Char))}
    (leads : tree.canonicalize path = some place) (dir : tree.node place = some .dir)
    (listed : listing.entries place = some entries) :
    getFileMetadatasHelper tree listing topPath (depth + 1) path files =
      visitEntries (getFileMetadatasHelper tree listing topPath depth) place entries files := by
  rw [getFileMetadatasHelper, leads]
  simp only [dir, listed]

theorem helper_inside (leads : tree.canonicalize path = some place)
    (openable : tree.Openable place) (inside : topPath <+: canonical place) :
    getFileMetadatasHelper tree listing topPath (depth + 1) path files =
      .ok (files ++ [fileMeta tree topPath place]) := by
  obtain ⟨size, file⟩ := openable
  rw [getFileMetadatasHelper, leads, fileMeta, FileTree.fileSize]
  simp only [file, stripPrefix, if_pos inside]

theorem helper_outside (leads : tree.canonicalize path = some place)
    (openable : tree.Openable place) (outside : ¬ topPath <+: canonical place) :
    getFileMetadatasHelper tree listing topPath (depth + 1) path files =
      .error (.panicked .unwrap) := by
  obtain ⟨size, file⟩ := openable
  rw [getFileMetadatasHelper, leads]
  simp only [file, stripPrefix, if_neg outside]

theorem helper_other (leads : tree.canonicalize path = some place)
    (notDir : tree.node place ≠ some .dir) (notFile : ¬ tree.Openable place) :
    getFileMetadatasHelper tree listing topPath (depth + 1) path files = .ok files := by
  rw [getFileMetadatasHelper, leads]
  cases there : tree.node place with
  | none => simp only [there]
  | some node =>
      cases node with
      | dir => exact absurd there notDir
      | file size openable =>
          cases openable with
          | false => simp only [there]
          | true => exact absurd ⟨size, there⟩ notFile
      | link target => simp only [there]
      | other => simp only [there]

end Visits

/-! ## A walk that returns -/

/-- The loop over the entries, where each visit is a walk that returned. -/
theorem visitEntries_ok {depth : Nat} {place : Place}
    (visits : ∀ path files after,
      getFileMetadatasHelper tree listing topPath depth path files = .ok after →
        ∃ next found, tree.canonicalize path = some next ∧
          Found tree listing topPath next found ∧
          after = files ++ found.map fun entry => fileMeta tree topPath entry.2)
    (entries : List (Option (List Char))) (files after : List LocalFileMeta)
    (once : entries.reduceOption.Nodup)
    (visited : visitEntries (getFileMetadatasHelper tree listing topPath depth) place entries
      files = .ok after) :
    ∃ found, FoundBehind tree listing topPath place entries found ∧
      after = files ++ found.map fun entry => fileMeta tree topPath entry.2 := by
  induction entries generalizing files with
  | nil =>
      rw [visitEntries, Except.ok.injEq] at visited
      exact ⟨[], .nil place, by rw [visited, List.map_nil, List.append_nil]⟩
  | cons entry entries ih =>
      cases entry with
      | none => cases visited
      | some name =>
          rw [visitEntries] at visited
          cases visit : getFileMetadatasHelper tree listing topPath depth
              (canonical place ++ [.normal name]) files with
          | error stop =>
              rw [visit] at visited
              cases visited
          | ok middle =>
              rw [visit] at visited
              obtain ⟨next, first, opens, behindFirst, added⟩ := visits _ _ _ visit
              rw [canonical_snoc] at opens
              rw [List.reduceOption_cons_of_some, List.nodup_cons] at once
              obtain ⟨others, behind, more⟩ := ih middle once.2 visited
              refine ⟨_, .cons opens behindFirst behind fun member =>
                once.1 (List.reduceOption_mem_iff.mpr member), ?_⟩
              rw [more, added, List.map_append, List.map_map, List.append_assoc]
              rfl

/-- By induction on how deep the walk goes. -/
theorem helper_ok (depth : Nat) (path : List Component) (files after : List LocalFileMeta)
    (walked : getFileMetadatasHelper tree listing topPath depth path files = .ok after) :
    ∃ place found, tree.canonicalize path = some place ∧
      Found tree listing topPath place found ∧
      after = files ++ found.map fun entry => fileMeta tree topPath entry.2 := by
  induction depth generalizing path files after with
  | zero => cases walked
  | succ depth ih =>
      cases leads : tree.canonicalize path with
      | none =>
          rw [helper_missing files leads] at walked
          cases walked
      | some place =>
          by_cases dir : tree.node place = some .dir
          · cases listed : listing.entries place with
            | none =>
                rw [helper_unread files leads dir listed] at walked
                cases walked
            | some entries =>
                rw [helper_dir files leads dir listed] at walked
                obtain ⟨found, behind, added⟩ := visitEntries_ok ih entries files after
                  (listing.once place entries listed) walked
                exact ⟨place, found, rfl, behind.found dir listed, added⟩
          · by_cases openable : tree.Openable place
            · by_cases inside : topPath <+: canonical place
              · rw [helper_inside files leads openable inside, Except.ok.injEq] at walked
                exact ⟨place, _, rfl, found_file openable inside, walked.symm⟩
              · rw [helper_outside files leads openable inside] at walked
                cases walked
            · rw [helper_other files leads dir openable, Except.ok.injEq] at walked
              refine ⟨place, [], rfl, found_nothing dir openable, ?_⟩
              rw [walked, List.map_nil, List.append_nil]

end Walks

section Arguments

variable {tree : FileTree} {listing : Listing}

/-- All arguments, each with the place it has and what was found behind it. -/
def AllFound (tree : FileTree) (listing : Listing) (paths : List (List Component))
    (walks : List (Place × List (List (List Char) × Place))) : Prop :=
  List.Forall₂ (fun path walk => tree.canonicalize path = some walk.1 ∧
    Found tree listing (topPath walk.1) walk.1 walk.2) paths walks

/-- What was pushed for all arguments. -/
def metas (tree : FileTree) (walks : List (Place × List (List (List Char) × Place))) :
    List LocalFileMeta :=
  walks.flatMap fun walk => walk.2.map fun entry => fileMeta tree (topPath walk.1) entry.2

theorem canonicalize_again {path : List Component} {place : Place}
    (leads : tree.canonicalize path = some place) :
    tree.canonicalize (canonical place) = some place := by
  obtain ⟨node, there, notLink⟩ := tree.canonicalize_found leads
  exact tree.canonicalize_canonical place node there notLink

theorem getFileMetadatas_stop {depth : Nat} {path : List Component} {place : Place} {stop : Stop}
    {files : List LocalFileMeta} (paths : List (List Component))
    (leads : tree.canonicalize path = some place)
    (walk : getFileMetadatasHelper tree listing (topPath place) depth (canonical place) files =
      .error stop) : getFileMetadatas tree listing depth (path :: paths) files = .error stop := by
  rw [getFileMetadatas, leads]
  simp only [walk]

theorem getFileMetadatas_next {depth : Nat} {path : List Component} {place : Place}
    {files after : List LocalFileMeta} (paths : List (List Component))
    (leads : tree.canonicalize path = some place)
    (walk : getFileMetadatasHelper tree listing (topPath place) depth (canonical place) files =
      .ok after) :
    getFileMetadatas tree listing depth (path :: paths) files =
      getFileMetadatas tree listing depth paths after := by
  rw [getFileMetadatas, leads]
  simp only [walk]

theorem getFileMetadatas_ok (depth : Nat) (paths : List (List Component))
    (files after : List LocalFileMeta)
    (walked : getFileMetadatas tree listing depth paths files = .ok after) :
    ∃ walks, AllFound tree listing paths walks ∧ after = files ++ metas tree walks := by
  induction paths generalizing files with
  | nil =>
      rw [getFileMetadatas, Except.ok.injEq] at walked
      exact ⟨[], .nil, by rw [walked, metas, List.flatMap_nil, List.append_nil]⟩
  | cons path paths ih =>
      cases leads : tree.canonicalize path with
      | none =>
          rw [getFileMetadatas, leads] at walked
          cases walked
      | some place =>
          cases walk : getFileMetadatasHelper tree listing (topPath place) depth
              (canonical place) files with
          | error stop =>
              rw [getFileMetadatas_stop paths leads walk] at walked
              cases walked
          | ok middle =>
              rw [getFileMetadatas_next paths leads walk] at walked
              obtain ⟨same, found, again, behind, added⟩ := helper_ok depth _ files middle walk
              rw [canonicalize_again leads, Option.some.injEq] at again
              rw [← again] at behind
              obtain ⟨walks, others, more⟩ := ih middle walked
              refine ⟨(place, found) :: walks, .cons ⟨leads, behind⟩ others, ?_⟩
              rw [more, added, metas, metas, List.flatMap_cons, List.append_assoc]

end Arguments

end Gday.Chat
