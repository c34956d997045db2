import Gday.Chat.ListedFiles
import Gday.Chat.TransferCompletes

/-! # A tree is copied

From the arguments of the one user to the download folder of the other: the walk of
`confirm_send`, the offer, and the transfer.  Where no two arguments end in the same name, no file
changes meanwhile and nothing is in the way at the receiver, it has each file under the way to it
from its argument on, and nothing else. -/
set_option autoImplicit false
namespace Gday.Chat

open Relation
open Gday.Lib.Duplex Gday.Lib.Files Gday.Lib.LexicalPath Gday.Lib.Postcard Gday.Lib.Program
open Gday.Lib.Program.Pair

/-! ## Names at the receiver -/

/-- Where the receiver puts the file that is at the end of this way. -/
def copyPath (route : List (List Char)) : List Component :=
  .normal folderName :: route.map .normal

theorem copyPath_injective : Function.Injective copyPath := by
  intro one other same
  have injective : Function.Injective Component.normal := fun _ _ => Component.normal.inj
  exact List.map_injective_iff.mpr injective (List.cons.inj same).2

theorem destination_render (names : List (List Char)) (valid : ∀ name ∈ names, IsName name)
    (size : Nat) : destination ⟨render (names.map .normal), size⟩ = copyPath names := by
  rw [destination_relative _ (isAbsolute_render names valid), segments_render names valid]
  rfl

/-- The receiver has what is below the arguments: each file of theirs with its contents under
the way to it from the last name of its argument on, and no other file. -/
structure Copies (tree : FileTree) (content : Place → List UInt8) (places : List Place)
    (store : List Component → Option (List UInt8)) : Prop where
  copied : ∀ above name below, above ++ [name] ∈ places →
    tree.Openable (above ++ name :: below) →
      store (copyPath (name :: below)) = some (content (above ++ name :: below))
  nothingElse : ∀ path, (store path).isSome → ∃ above name below, above ++ [name] ∈ places ∧
    tree.Openable (above ++ name :: below) ∧ path = copyPath (name :: below)

/-- Two arguments that end in the same name are one. -/
def NamedApart (places : List Place) : Prop :=
  ∀ above other name, above ++ [name] ∈ places → other ++ [name] ∈ places → above = other

section Listed

variable {tree : FileTree} {places : List Place} {files : List LocalFileMeta}

/-- The destination of a listed file. -/
theorem ListsFiles.destination_eq (listed : ListsFiles tree places files) {file : LocalFileMeta}
    (member : file ∈ files) : ∃ above name below, above ++ [name] ∈ places ∧
      tree.Openable (above ++ name :: below) ∧
      file.localPath = render (canonical (above ++ name :: below)) ∧
      destination file.public_ = copyPath (name :: below) := by
  obtain ⟨above, name, below, size, place, there, rfl⟩ := (listed.2 file).mp member
  have openable : tree.Openable (above ++ name :: below) := ⟨size, there⟩
  refine ⟨above, name, below, place, openable, rfl, ?_⟩
  apply destination_render
  intro other inside
  exact names_of_openable openable other (List.mem_append_right _ inside)

/-- No two listed files have the same destination. -/
theorem ListsFiles.destinations (listed : ListsFiles tree places files)
    (apart : NamedApart places) :
    (files.map fun file => destination file.public_).Nodup := by
  rw [List.nodup_map_iff_inj_on (listed.1.of_map _)]
  intro one member other otherMember same
  obtain ⟨above, name, below, place, _, local_, destination_⟩ := listed.destination_eq member
  obtain ⟨otherAbove, otherName, otherBelow, otherPlace, _, otherLocal, otherDestination⟩ :=
    listed.destination_eq otherMember
  rw [destination_, otherDestination] at same
  have route := copyPath_injective same
  rw [List.cons.injEq] at route
  obtain ⟨rfl, rfl⟩ := route
  have folders := apart above otherAbove name place otherPlace
  rw [folders, ← otherLocal] at local_
  exact List.inj_on_of_nodup_map listed.1 member otherMember local_

/-- The listed files are not in each other's way at the receiver. -/
theorem ListsFiles.clear (listed : ListsFiles tree places files) (apart : NamedApart places)
    {start : List Component → Option Kind}
    (free : Free id start (files.map fun file => destination file.public_)) :
    Clear id start (files.map fun file => destination file.public_) := by
  refine ⟨free, ?_⟩
  rw [List.forall_mem_map]
  intro one member
  rw [List.forall_mem_map]
  intro other otherMember above isStart proper same
  obtain ⟨folder, name, below, place, openable, _, at_⟩ := listed.destination_eq member
  obtain ⟨otherFolder, otherName, otherBelow, otherPlace, ⟨_, file⟩, _, otherAt⟩ :=
    listed.destination_eq otherMember
  have same : above = destination other.public_ := same
  rw [same, otherAt, at_] at isStart proper
  -- the other file is a directory on the way to the first one
  have route : otherName :: otherBelow <+: name :: below := by
    have names := (List.cons_prefix_cons.mp isStart).2
    rw [List.prefix_iff_eq_take, ← List.map_take, List.length_map] at names
    rw [List.prefix_iff_eq_take]
    exact List.map_injective_iff.mpr (fun _ _ => Component.normal.inj) names
  obtain ⟨rfl, rest, rfl⟩ := List.cons_prefix_cons.mp route
  rw [apart otherFolder folder otherName otherPlace place] at file
  have deeper : rest ≠ [] := by
    rintro rfl
    rw [List.append_nil] at proper
    exact proper rfl
  have dir := tree.dir_of_prefix (folder ++ otherName :: otherBelow) rest (by
    rw [List.append_assoc, List.cons_append]
    exact tree.there_of_openable openable) deeper
  rw [dir] at file
  cases file

end Listed

/-! ## From one user to the other -/

/-- A user who sends a tree without links that stays as it is, and one who accepts all of it and has
nothing in its way. -/
structure Sharing where
  senderDebug : Bool
  receiverDebug : Bool
  tree : FileTree
  listing : Listing
  depth : Nat
  paths : List (List Component)
  places : List Place
  response : Option (List Char)
  content : Place → List UInt8
  disk : LocalDisk
  offer : Vec OfferedFile
  looks : Nat → Disk × Disk
  start : List Component → Option Kind
  plain : Plain tree listing
  exist : List.Forall₂ (fun path place => tree.canonicalize path = some place) paths places
  noRoot : ∀ place ∈ places, place ≠ []
  apart : NamedApart places
  sent : confirmSend senderDebug tree listing depth paths response = .ok (localFiles offer)
  sendable : (offerMessage (some offer)).Sendable
  unchanged : ∀ place size, tree.node place = some (.file size true) →
    disk (render (canonical place)) = some (content place) ∧
      (content place).length = size.toNat
  fits : receiverDebug = true → totalSize tree places < 2 ^ 64
  free : Free id start ((localFiles offer).map fun file => destination file.public_)

namespace Sharing

variable (sharing : Sharing)

/-- The check of the arguments has passed. -/
theorem beside : sharing.places.Pairwise Beside := by
  obtain ⟨passed, _⟩ := confirmSend_ok sharing.sent
  rcases checkPaths_cases sharing.paths sharing.places sharing.exist with ⟨_, beside⟩ | refused
  · exact beside
  · obtain ⟨⟨_, _, overlapping⟩, _⟩ := refused
    rw [passed] at overlapping
    cases overlapping

theorem walked : ListsFiles sharing.tree sharing.places (localFiles sharing.offer) ∧
    ((localFiles sharing.offer).map LocalFileMeta.size).sum =
      totalSize sharing.tree sharing.places := by
  obtain ⟨_, walked⟩ := confirmSend_ok sharing.sent
  have all := sharing.plain.walked sharing.exist sharing.noRoot sharing.beside _ _ walked
  rwa [List.map_map] at all

/-- The lengths fit wherever one of the two builds checks them. -/
theorem sum_fits (checks : (sharing.senderDebug || sharing.receiverDebug) = true) :
    ((localFiles sharing.offer).map LocalFileMeta.size).sum < 2 ^ 64 := by
  rw [sharing.walked.2]
  rcases (Bool.or_eq_true _ _).mp checks with sender | receiver
  · have sent := sharing.sent
    rw [sender] at sent
    exact sharing.plain.fits_of_sent sharing.exist sharing.noRoot sharing.beside sent
  · exact sharing.fits receiver

/-- All files are accepted. -/
theorem chooses_all {files : List FileMeta} {chosen : List Bool}
    (chose : confirmReceive sharing.receiverDebug sharing.looks .all files = .ok chosen) :
    chosen = List.replicate files.length true := by
  unfold confirmReceive at chose
  cases tallied : tallyFiles sharing.receiverDebug sharing.looks files ⟨[], 0, 0⟩ with
  | error panic =>
      rw [tallied] at chose
      cases chose
  | ok tally =>
      rw [tallied] at chose
      cases chose
      rfl

theorem sends_all {chosen : List Bool}
    (chose : confirmReceive sharing.receiverDebug sharing.looks .all
      ((localFiles sharing.offer).map LocalFileMeta.public_) = .ok chosen) :
    filesToSend (localFiles sharing.offer) chosen = localFiles sharing.offer := by
  rw [sharing.chooses_all chose, List.length_map, filesToSend_replicate, List.take_length]

/-- The transfer that follows. -/
def setting : Setting where
  senderDebug := sharing.senderDebug
  receiverDebug := sharing.receiverDebug
  disk := sharing.disk
  content := holds sharing.disk
  files := some sharing.offer
  looks := sharing.looks
  choice := .all
  fileSystem := treeFileSystem id sharing.start
  sendable := sharing.sendable
  present := by
    intro file member
    obtain ⟨above, name, below, size, _, there, rfl⟩ := (sharing.walked.1.2 file).mp member
    obtain ⟨held, length⟩ := sharing.unchanged _ _ there
    simp only [holds, held, Option.getD_some]
    exact ⟨trivial, length⟩
  fits := sharing.sum_fits
  granted := by
    intro chosen chose
    show (treeFileSystem id sharing.start).Grants _
      (filesToSend (localFiles sharing.offer) chosen) []
    rw [sharing.sends_all chose]
    exact Clear.grants sharing.start _ _ (fun file member => List.mem_map.mpr ⟨file, member, rfl⟩) []
      (sharing.walked.1.clear sharing.apart sharing.free)

theorem accepts_all {chosen : List Bool} (answers : sharing.setting.Answers chosen) :
    sharing.setting.accepted chosen = localFiles sharing.offer :=
  sharing.sends_all (answers sharing.offer rfl)

/-- What is stored at the end is a copy. -/
theorem copies {chosen : List Bool} {effects : List Effect}
    (answers : sharing.setting.Answers chosen)
    (stores : sharing.setting.Stores id chosen effects) :
    Copies sharing.tree sharing.content sharing.places (stored id effects) := by
  obtain ⟨each, only⟩ := stores
  have all := sharing.accepts_all answers
  rw [all] at each only
  have listed := sharing.walked.1
  constructor
  · intro above name below place openable
    obtain ⟨size, there⟩ := openable
    have member := (listed.2 _).mpr ⟨above, name, below, size, place, there, rfl⟩
    have valid : ∀ other ∈ name :: below, IsName other := fun other inside =>
      names_of_openable ⟨size, there⟩ other (List.mem_append_right _ inside)
    have here := each _ member
    have held := (sharing.unchanged _ _ there).1
    simp only [LocalFileMeta.public_, id, destination_render _ valid, setting, holds, held,
      Option.getD_some] at here
    exact here
  · intro path there
    obtain ⟨file, member, same⟩ := only path there
    obtain ⟨above, name, below, place, openable, _, destination_⟩ := listed.destination_eq member
    exact ⟨above, name, below, place, openable, same.symm.trans destination_⟩

end Sharing

/-- Over any pipes, and however the bytes are cut, every run ends, and it ends with the tree
copied: each file below an argument is stored under its way from there, and nothing else is. -/
theorem tree_copied (sharing : Sharing) (capacity : Option Nat) (some_ : Pipe.Fits capacity 1) :
    ∃ effects final,
      Completes capacity (start sharing.setting.creator sharing.setting.notCreator) final ∧
        At true (.done (.ready (), [])) (.done (.ready (), effects)) final ∧
        Copies sharing.tree sharing.content sharing.places (stored id effects) := by
  obtain ⟨chosen, effects, answers, reaches, received⟩ := sharing.setting.reaches_end some_
  obtain ⟨final, completes, at_⟩ := reaches.completes
  have distinct := sharing.walked.1.destinations sharing.apart
  exact ⟨effects, final, completes, at_,
    sharing.copies answers (sharing.setting.effects_stored id distinct answers received)⟩

/-- A folder with a file and another folder, which has a file too. -/
def folderNodes : List (Place × Node) :=
  [([], .dir), ([['a']], .dir), ([['a'], ['s']], .dir), ([['a'], ['s'], ['y']], .file 2 true),
    ([['a'], ['x']], .file 1 true)]

theorem folderNodes_isTree : IsTree folderNodes := by decide

def folderTree : FileTree := .ofNodes folderNodes folderNodes_isTree 40

def folderContent (place : Place) : List UInt8 :=
  if place = [['a'], ['x']] then [65] else [66, 66]

def folderDisk (path : Path) : Option (List UInt8) :=
  some (if path = "/a/x".toList then [65] else [66, 66])

/-- `a/s/y` and `a/x`, as the walk finds them. -/
def folderOffer : Vec OfferedFile :=
  ⟨[⟨"/a/s/y".toList, ⟨[97, 47, 115, 47, 121], by decide⟩, 2⟩,
    ⟨"/a/x".toList, ⟨[97, 47, 120], by decide⟩, 1⟩], by decide⟩

theorem folderOffer_sendable : (offerMessage (some folderOffer)).Sendable := by
  refine ⟨?_, ?_⟩
  · intro meta_ member
    rcases List.mem_cons.mp member with rfl | member
    · decide
    · rw [List.mem_singleton.mp member]
      decide
  · intro bytes encoded
    cases encoded
    decide

theorem folder_unchanged (place : Place) (size : UInt64)
    (there : folderTree.node place = some (.file size true)) :
    folderDisk (render (canonical place)) = some (folderContent place) ∧
      (folderContent place).length = size.toNat := by
  have member : (place, Node.file size true) ∈ folderNodes := mem_of_lookup there
  simp only [folderNodes, List.mem_cons, List.not_mem_nil, or_false, Prod.mk.injEq, reduceCtorEq,
    and_false, false_or, Node.file.injEq, and_true] at member
  rcases member with ⟨rfl, rfl⟩ | ⟨rfl, rfl⟩
  · decide
  · decide

def folderSharing : Sharing where
  senderDebug := true
  receiverDebug := true
  tree := folderTree
  listing := .full folderTree
  depth := 3
  paths := [[.rootDir, .normal ['a']]]
  places := [[['a']]]
  response := some ['y']
  content := folderContent
  disk := folderDisk
  offer := folderOffer
  looks := fun _ => (fun _ => none, fun _ => none)
  start := emptyFolder
  plain := plain_full (by decide)
  exist := List.Forall₂.cons (by decide) .nil
  noRoot := by decide
  apart := by
    intro above other name member otherMember
    have one := List.mem_singleton.mp member
    have two := List.mem_singleton.mp otherMember
    exact (List.append_left_injective _) (one.trans two.symm)
  sent := by decide
  sendable := folderOffer_sendable
  unchanged := folder_unchanged
  fits := by
    intro checked
    decide
  free := emptyFolder_free _ (by decide)

/-- The folder arrives over pipes that hold a single byte. -/
theorem folder_copied : ∃ effects final,
    Completes (some 1) (start folderSharing.setting.creator folderSharing.setting.notCreator)
        final ∧
      At true (.done (.ready (), [])) (.done (.ready (), effects)) final ∧
      stored id effects (copyPath [['a'], ['s'], ['y']]) = some [66, 66] := by
  obtain ⟨effects, final, completes, at_, copies⟩ := tree_copied folderSharing (some 1)
    (fun bound given => by cases given; exact Nat.le_refl 1)
  exact ⟨effects, final, completes, at_,
    copies.copied [] ['a'] [['s'], ['y']] (List.mem_singleton_self _) ⟨2, rfl⟩⟩

end Gday.Chat
