import Gday.Lib.AsyncStream
import Gday.Lib.LexicalPath

/-! # Receiving files

`confirm_receive`, `receive_files` and `not_creator_run` with the answers of the user and
of the file system as parameters.  What reaches the file system is recorded as a list of
effects; `FileSystem` answers each call knowing everything that was done before it. -/
set_option autoImplicit false
namespace Gday.Chat

open Gday.Lib.AsyncStream Gday.Lib.LexicalPath

/-- `RECEIVED_FILE_FOLDER` is this name and a separator. -/
def folderName : List Char := "gday_received".toList

def receivedFileFolder : Path := folderName ++ ['/']

structure FileMeta where
  path : Path
  size : Nat
  deriving DecidableEq, Repr

inductive Message where
  | fileOffer (files : Option (List FileMeta))
  | fileAccept (chosen : List Bool)
  deriving DecidableEq, Repr

/-! ## The user's choice -/

/-- The answers "2" and "3", and every other one. -/
inductive Choice where
  | onlyNew
  | all
  | reject
  deriving DecidableEq, Repr

/-- The sizes of the files that can be opened. -/
abbrev Disk := Path → Option Nat

def fileExists (disk : Disk) (meta_ : FileMeta) : Bool :=
  disk (join receivedFileFolder meta_.path) == some meta_.size

/-- `left + right` on `u64`, which wraps where overflow checks are off. -/
def addU64 (debug : Bool) (left right : Nat) : Except Panic Nat :=
  if left + right < 2 ^ 64 then .ok (left + right)
  else if debug then .error .overflow
  else .ok ((left + right) % 2 ^ 64)

structure Tally where
  newFiles : List Bool
  newSize : Nat
  totalSize : Nat
  deriving DecidableEq, Repr

/-- One round of the loop of `confirm_receive`, which looks for a file and, where it did
not find it, looks again. -/
def tallyFile (debug : Bool) (first second : Disk) (tally : Tally) (meta_ : FileMeta) :
    Except Panic Tally := do
  let totalSize ← addU64 debug tally.totalSize meta_.size
  if fileExists first meta_ then return { tally with totalSize := totalSize }
  else
    let newSize ← addU64 debug tally.newSize meta_.size
    return ⟨tally.newFiles ++ [!fileExists second meta_], newSize, totalSize⟩

/-- The loop over the files: `looks` has the two looks at the disk for each of them. -/
def tallyFiles (debug : Bool) :
    (Nat → Disk × Disk) → List FileMeta → Tally → Except Panic Tally
  | _, [], tally => .ok tally
  | looks, meta_ :: files, tally => do
      let next ← tallyFile debug (looks 0).1 (looks 0).2 tally meta_
      tallyFiles debug (fun k => looks (k + 1)) files next

def confirmReceive (debug : Bool) (looks : Nat → Disk × Disk) (choice : Choice)
    (files : List FileMeta) : Except Panic (List Bool) := do
  let tally ← tallyFiles debug looks files ⟨[], 0, 0⟩
  match choice with
  | .onlyNew => return tally.newFiles
  | .all => return List.replicate files.length true
  | .reject => return List.replicate files.length false

/-! ## The file system -/

inductive Effect where
  | mkdir (path : List Component)
  | create (path : List Component)
  | write (path : List Component) (bytes : List UInt8)
  deriving DecidableEq, Repr

/-- The place that an effect touches. -/
def Effect.path : Effect → List Component
  | .mkdir path => path
  | .create path => path
  | .write path _ => path

/-- An `mkdir` that is refused says whether the error was `NotFound`, and whether the path
is a directory all the same. -/
inductive MkdirAnswer where
  | created
  | refused (notFound : Bool) (isDir : Bool)
  deriving DecidableEq, Repr

structure FileSystem where
  mkdir : List Effect → List Component → MkdirAnswer
  create : List Effect → List Component → Bool
  write : List Effect → List Component → Bool

/-- `std::fs::create_dir_all`, with the last component of the path first; `true` where it
returns `Ok`. -/
def createDirAll (fileSystem : FileSystem) : List Component → List Effect → Bool × List Effect
  | [], done => (true, done)
  | last :: rest, done =>
      let path := (last :: rest).reverse
      let tried := done ++ [.mkdir path]
      match fileSystem.mkdir done path with
      | .created => (true, tried)
      | .refused false isDir => (isDir, tried)
      | .refused true _ =>
          if last = .rootDir then (false, tried)
          else
            match createDirAll fileSystem rest tried with
            | (false, later) => (false, later)
            | (true, later) =>
                match fileSystem.mkdir later path with
                | .created => (true, later ++ [.mkdir path])
                | .refused _ isDir => (isDir, later ++ [.mkdir path])

/-! ## Receiving -/

/-- What follows the bytes that the reader still delivers. -/
inductive Ending where
  | endOfStream
  | failure
  | silence
  deriving DecidableEq, Repr

structure Supply where
  bytes : List UInt8
  ending : Ending
  deriving DecidableEq, Repr

/-- `tokio::io::copy_buf` of `reader.take(size)`: what it copies, how it ends, and what is left.
End of stream ends it early; what came before a failure or a silence is copied all the same. -/
def copyBuf (size : Nat) (supply : Supply) : List UInt8 × Outcome Unit × Supply :=
  (supply.bytes.take size,
    if size ≤ supply.bytes.length then .ready ()
    else
      match supply.ending with
      | .endOfStream => .ready ()
      | .failure => .failed .inner
      | .silence => .waiting,
    { supply with bytes := supply.bytes.drop size })

/-- The path that a file is received at. -/
def destination (meta_ : FileMeta) : List Component :=
  components (join receivedFileFolder meta_.path)

/-- The directory that is made for it. -/
def directory (meta_ : FileMeta) : List Component := (parent (destination meta_)).getD []

/-- Opening the file and copying into it. -/
def fillFile (fileSystem : FileSystem) (meta_ : FileMeta) (supply : Supply)
    (done : List Effect) : Outcome Unit × Supply × List Effect :=
  let created := done ++ [.create (destination meta_)]
  if fileSystem.create done (destination meta_) then
    let (bytes, outcome, rest) := copyBuf meta_.size supply
    let written := created ++ [.write (destination meta_) bytes]
    if fileSystem.write created (destination meta_) then (outcome, rest, written)
    else (.failed .inner, rest, written)
  else (.failed .inner, supply, created)

/-- One round of the loop of `receive_files`. -/
def receiveFile (fileSystem : FileSystem) (meta_ : FileMeta) (supply : Supply)
    (done : List Effect) : Outcome Unit × Supply × List Effect :=
  match createDirAll fileSystem (directory meta_).reverse done with
  | (false, later) => (.failed .inner, supply, later)
  | (true, later) => fillFile fileSystem meta_ supply later

def receiveLoop (fileSystem : FileSystem) :
    List FileMeta → Supply → List Effect → Outcome Unit × Supply × List Effect
  | [], supply, done => (.ready (), supply, done)
  | meta_ :: files, supply, done =>
      match receiveFile fileSystem meta_ supply done with
      | (.ready (), rest, later) => receiveLoop fileSystem files rest later
      | stopped => stopped

def sumSizes (debug : Bool) : List FileMeta → Nat → Except Panic Nat
  | [], sum => .ok sum
  | meta_ :: files, sum => do
      let next ← addU64 debug sum meta_.size
      sumSizes debug files next

def receiveFiles (debug : Bool) (fileSystem : FileSystem) (files : List FileMeta)
    (supply : Supply) : Outcome Unit × Supply × List Effect :=
  match sumSizes debug files 0 with
  | .error panic => (.panicked panic, supply, [])
  | .ok _ => receiveLoop fileSystem files supply []

/-- The files that `not_creator_run` receives: those whose entry in `chosen` is true. -/
def filesToReceive (files : List FileMeta) (chosen : List Bool) : List FileMeta :=
  ((files.zip chosen).filter fun pair => pair.2).map Prod.fst

/-- What `not_creator_run` meets besides the message it receives. -/
structure Surroundings where
  debug : Bool
  looks : Nat → Disk × Disk
  choice : Choice
  replySent : Bool
  fileSystem : FileSystem
  supply : Supply

/-- `not_creator_run` up to the chat, on the message it received first.  A message that
is no offer is an error. -/
def notCreatorRun (surroundings : Surroundings) : Message →
    Outcome Unit × Supply × List Effect
  | .fileOffer none => (.ready (), surroundings.supply, [])
  | .fileOffer (some files) =>
      match confirmReceive surroundings.debug surroundings.looks surroundings.choice files with
      | .error panic => (.panicked panic, surroundings.supply, [])
      | .ok chosen =>
          if surroundings.replySent then
            receiveFiles surroundings.debug surroundings.fileSystem (filesToReceive files chosen)
              surroundings.supply
          else (.failed .inner, surroundings.supply, [])
  | .fileAccept _ => (.failed .invalidData, surroundings.supply, [])

end Gday.Chat
