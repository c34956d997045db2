import Gday.Chat.Transfer
import Gday.Lib.Files

/-! # Offering files

`confirm_send` and the walk that finds the files below its arguments.  A path is the list
of its components.  `depth` bounds how deep the recursion is followed, so that a walk that
never ends is one that is too deep for every bound. -/
set_option autoImplicit false
namespace Gday.Chat

open Gday.Lib.AsyncStream (Panic)
open Gday.Lib.LexicalPath Gday.Lib.Files

/-- Why a call returns no files. -/
inductive Stop where
  | io
  | overlappingPaths (path1 path2 : List Component)
  | userCancelledSend
  | panicked (panic : Panic)
  | deep
  deriving DecidableEq

/-! ## The walk -/

/-- The loop over the entries of a directory, each of which is visited with what was found so
far. -/
def visitEntries (visit : List Component → List LocalFileMeta → Except Stop (List LocalFileMeta))
    (place : Place) :
    List (Option (List Char)) → List LocalFileMeta → Except Stop (List LocalFileMeta)
  | [], files => .ok files
  | none :: _, _ => .error .io
  | some name :: rest, files =>
      match visit (canonical place ++ [.normal name]) files with
      | .error stop => .error stop
      | .ok files => visitEntries visit place rest files

def getFileMetadatasHelper (tree : FileTree) (listing : Listing) (topPath : List Component) :
    Nat → List Component → List LocalFileMeta → Except Stop (List LocalFileMeta)
  | 0, _, _ => .error .deep
  | depth + 1, path, files =>
      match tree.canonicalize path with
      | none => .error .io
      | some place =>
          match tree.node place with
          | some .dir =>
              match listing.entries place with
              | none => .error .io
              | some entries =>
                  visitEntries (getFileMetadatasHelper tree listing topPath depth) place entries
                    files
          | some (.file size true) =>
              match stripPrefix topPath (canonical place) with
              | none => .error (.panicked .unwrap)
              | some publicPath =>
                  .ok (files ++ [⟨render (canonical place), render publicPath, size.toNat⟩])
          | _ => .ok files

/-- The folder of an argument; nothing is above the root. -/
def topPath (place : Place) : List Component := (parent (canonical place)).getD []

def getFileMetadatas (tree : FileTree) (listing : Listing) (depth : Nat) :
    List (List Component) → List LocalFileMeta → Except Stop (List LocalFileMeta)
  | [], files => .ok files
  | path :: paths, files =>
      match tree.canonicalize path with
      | none => .error .io
      | some place =>
          match getFileMetadatasHelper tree listing (topPath place) depth (canonical place)
              files with
          | .error stop => .error stop
          | .ok files => getFileMetadatas tree listing depth paths files

/-! ## The dialog -/

/-- The inner loop: one path against those behind it. -/
def checkPath (tree : FileTree) (path1 : List Component) (canonical1 : Place) :
    List (List Component) → Except Stop Unit
  | [] => .ok ()
  | path2 :: paths =>
      match tree.canonicalize path2 with
      | none => .error .io
      | some canonical2 =>
          if canonical canonical2 <+: canonical canonical1 ∨
              canonical canonical1 <+: canonical canonical2 then
            .error (.overlappingPaths path1 path2)
          else checkPath tree path1 canonical1 paths

def checkPaths (tree : FileTree) : List (List Component) → Except Stop Unit
  | [] => .ok ()
  | path1 :: paths =>
      match tree.canonicalize path1 with
      | none => .error .io
      | some canonical1 =>
          match checkPath tree path1 canonical1 paths with
          | .error stop => .error stop
          | .ok () => checkPaths tree paths

/-- White space of `str::trim`. -/
def isWhiteSpace (char : Char) : Bool :=
  (9 ≤ char.toNat && char.toNat ≤ 13) || (8192 ≤ char.toNat && char.toNat ≤ 8202) ||
    [32, 133, 160, 5760, 8232, 8233, 8239, 8287, 12288].contains char.toNat

def trim (text : List Char) : List Char :=
  ((text.dropWhile isWhiteSpace).reverse.dropWhile isWhiteSpace).reverse

/-- Every start of "yes" is a yes, the empty one too.  Only letters of ASCII have one of its
letters for their lower case. -/
def isYes (response : List Char) : Bool :=
  (trim response).map Char.toLower <+: "yes".toList

/-- `response` is none where standard input or output fails. -/
def confirmSend (debug : Bool) (tree : FileTree) (listing : Listing) (depth : Nat)
    (paths : List (List Component)) (response : Option (List Char)) :
    Except Stop (List LocalFileMeta) :=
  match checkPaths tree paths with
  | .error stop => .error stop
  | .ok () =>
      match getFileMetadatas tree listing depth paths [] with
      | .error stop => .error stop
      | .ok files =>
          match sumSizes debug (files.map LocalFileMeta.public_) 0 with
          | .error panic => .error (.panicked panic)
          | .ok _ =>
              match response with
              | none => .error .io
              | some answer => if isYes answer then .ok files else .error .userCancelledSend

end Gday.Chat
