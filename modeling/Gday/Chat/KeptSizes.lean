import Gday.Chat.AnnouncedSizes
import Gday.Lib.Records

/-! # Kept sizes

The sender sends what a file holds when it is sent, the receiver takes what was announced
for it, and neither compares the two.  A file that has grown or shrunk moves all that is sent
after it, until a file that cannot be opened ends the stream. -/
set_option autoImplicit false
namespace Gday.Chat

open Gday.Lib.AsyncStream Gday.Lib.LexicalPath Gday.Lib.Records
open Gday.Chat.Protocol (Sink)

/-! ## What is sent -/

/-- What goes out for each file: all that it holds, or its front where the writer fails. -/
def sentChunks (disk : LocalDisk) : List LocalFileMeta → Sink → List (List UInt8)
  | [], _ => []
  | file :: files, sink =>
      match disk file.localPath with
      | none => []
      | some content =>
          match sink.writeAll content with
          | (.ok (), next) => content :: sentChunks disk files next
          | (.error _, next) => [next.sent.drop sink.sent.length]

/-- The same for `send_files`, which adds the sizes up first. -/
def sentFor (debug : Bool) (disk : LocalDisk) (files : List LocalFileMeta) (sink : Sink) :
    List (List UInt8) :=
  match sumSizes debug (files.map LocalFileMeta.public_) 0 with
  | .error _ => []
  | .ok _ => sentChunks disk files sink

theorem writeAll_sent (sink : Sink) (bytes : List UInt8) :
    (∃ next, sink.writeAll bytes = (.ok (), next) ∧ next.sent = sink.sent ++ bytes) ∨
      ∃ error next front, sink.writeAll bytes = (.error error, next) ∧
        next.sent = sink.sent ++ front ∧ front <+: bytes := by
  unfold Sink.writeAll
  cases sink.room with
  | none => exact .inl ⟨_, rfl, rfl⟩
  | some room =>
      by_cases fits : bytes.length ≤ room
      · exact .inl ⟨_, if_pos fits, rfl⟩
      · exact .inr ⟨_, _, bytes.take room, if_neg fits, rfl, List.take_prefix ..⟩

/-- The outcome and the bytes of `send_files`, by the file that comes first. -/
theorem sendLoop_cons (disk : LocalDisk) (file : LocalFileMeta) (files : List LocalFileMeta)
    (sink : Sink) :
    (disk file.localPath = none ∧ sendLoop disk (file :: files) sink = (.failed .inner, sink) ∧
        sentChunks disk (file :: files) sink = []) ∨
      ∃ content, disk file.localPath = some content ∧
        ((∃ next, next.sent = sink.sent ++ content ∧
            sendLoop disk (file :: files) sink = sendLoop disk files next ∧
            sentChunks disk (file :: files) sink = content :: sentChunks disk files next) ∨
          ∃ next front, next.sent = sink.sent ++ front ∧ front <+: content ∧
            sendLoop disk (file :: files) sink = (.failed .inner, next) ∧
            sentChunks disk (file :: files) sink = [front]) := by
  cases held : disk file.localPath with
  | none => exact .inl ⟨rfl, by rw [sendLoop, held], by rw [sentChunks, held]⟩
  | some content =>
      refine .inr ⟨content, rfl, ?_⟩
      simp only [sendLoop, sentChunks, held]
      rcases writeAll_sent sink content with ⟨next, wrote, sent⟩ |
        ⟨_, next, front, wrote, sent, start⟩
      · exact .inl ⟨next, sent, by rw [wrote], by rw [wrote]⟩
      · refine .inr ⟨next, front, sent, start, by rw [wrote], ?_⟩
        simp only [wrote]
        rw [sent, List.drop_left]

/-- What is sent for the files is all that is sent. -/
theorem sendLoop_sent (disk : LocalDisk) (files : List LocalFileMeta) (sink : Sink) :
    (sendLoop disk files sink).2.sent = sink.sent ++ (sentChunks disk files sink).flatten := by
  induction files generalizing sink with
  | nil => exact (List.append_nil _).symm
  | cons file files ih =>
      rcases sendLoop_cons disk file files sink with ⟨_, ran, sent⟩ |
        ⟨content, _, ⟨next, wrote, ran, sent⟩ | ⟨next, front, wrote, _, ran, sent⟩⟩
      · rw [ran, sent, List.flatten_nil, List.append_nil]
      · rw [ran, sent, ih, wrote, List.flatten_cons, List.append_assoc]
      · rw [ran, sent, wrote, List.flatten_singleton]

/-- File by file, `sentFor` is what `send_files` writes. -/
theorem sendFiles_sent (debug : Bool) (disk : LocalDisk) (files : List LocalFileMeta)
    (sink : Sink) :
    (sendFiles debug disk files sink).2.sent =
      sink.sent ++ (sentFor debug disk files sink).flatten := by
  unfold sendFiles sentFor
  cases sumSizes debug (files.map LocalFileMeta.public_) 0 with
  | error panic => exact (List.append_nil _).symm
  | ok total => exact sendLoop_sent disk files sink

theorem sendLoop_outcome (disk : LocalDisk) (files : List LocalFileMeta) (sink : Sink) :
    (sendLoop disk files sink).1 = .ready () ∨
      (sendLoop disk files sink).1 = .failed .inner := by
  induction files generalizing sink with
  | nil => exact .inl rfl
  | cons file files ih =>
      rcases sendLoop_cons disk file files sink with ⟨_, ran, _⟩ |
        ⟨_, _, ⟨next, _, ran, _⟩ | ⟨_, _, _, _, ran, _⟩⟩
      · exact .inr (by rw [ran])
      · rw [ran]
        exact ih next
      · exact .inr (by rw [ran])

/-- `Ok` means that all files could be opened, and all of each was sent. -/
theorem sendLoop_ready (disk : LocalDisk) (files : List LocalFileMeta) (sink : Sink)
    (ready : (sendLoop disk files sink).1 = .ready ()) :
    (∀ file ∈ files, disk file.localPath ≠ none) ∧
      sentChunks disk files sink = files.map (holds disk) := by
  induction files generalizing sink with
  | nil => exact ⟨fun file member => absurd member List.not_mem_nil, rfl⟩
  | cons file files ih =>
      rcases sendLoop_cons disk file files sink with ⟨_, ran, _⟩ |
        ⟨content, held, ⟨next, _, ran, sent⟩ | ⟨_, _, _, _, ran, _⟩⟩
      · rw [ran] at ready
        cases ready
      · rw [ran] at ready
        obtain ⟨there, others⟩ := ih next ready
        refine ⟨List.forall_mem_cons.mpr ⟨by rw [held]; exact nofun, there⟩, ?_⟩
        rw [sent, others, List.map_cons, holds, held]
        rfl
      · rw [ran] at ready
        cases ready

theorem sentChunks_length (disk : LocalDisk) (files : List LocalFileMeta) (sink : Sink) :
    (sentChunks disk files sink).length ≤ files.length := by
  induction files generalizing sink with
  | nil => exact Nat.le_refl 0
  | cons file files ih =>
      rcases sendLoop_cons disk file files sink with ⟨_, _, sent⟩ |
        ⟨_, _, ⟨next, _, _, sent⟩ | ⟨_, _, _, _, _, sent⟩⟩
      · rw [sent]
        exact Nat.zero_le _
      · rw [sent]
        exact Nat.succ_le_succ (ih next)
      · rw [sent]
        exact Nat.succ_le_succ (Nat.zero_le _)

/-! ## What is received -/

/-- What the receiver took each byte for: the files it wrote them to, and what it left for the
chat. -/
def taken (run : Outcome Unit × Supply × List Effect) : List (Option Nat × UInt8) :=
  marked 0 ((writes run.2.2).map Prod.snd) ++
    match run.1 with
    | .ready _ => behind run.2.1.bytes
    | _ => []

/-- The files are written to at their places, in order; each gets bytes of its own only, and what
is left for the chat is chat. -/
structure KeepsApart (files : List FileMeta) (chunks : List (List UInt8)) (chat : List UInt8)
    (run : Outcome Unit × Supply × List Effect) : Prop where
  places : (writes run.2.2).map Prod.fst <+: files.map destination
  bytes : taken run <+: marked 0 chunks ++ behind chat

/-- What a run has written since, to files that are numbered from `first` on, and what it leaves
where it returns `Ok`. -/
def CutsOff (first : Nat) (files : List FileMeta) (bytes : List UInt8) (done : List Effect)
    (run : Outcome Unit × Supply × List Effect) : Prop :=
  ∃ pieces, writes run.2.2 = writes done ++ pieces ∧
    pieces.map Prod.fst <+: files.map destination ∧
    marked first (pieces.map Prod.snd) <+: cut first (files.map FileMeta.size) bytes ∧
    (run.1 = .ready () → marked first (pieces.map Prod.snd) ++ behind run.2.1.bytes =
      cut first (files.map FileMeta.size) bytes)

/-- A run that stops at its first file. -/
theorem CutsOff.stopped (first : Nat) (fileSystem : FileSystem) (meta_ : FileMeta)
    (files : List FileMeta) (supply : Supply) (done : List Effect)
    (failed : (receiveFile fileSystem meta_ supply done).1 ≠ .ready ()) :
    CutsOff first (meta_ :: files) supply.bytes done
      (receiveFile fileSystem meta_ supply done) := by
  rcases receiveFile_writes fileSystem meta_ supply done with ⟨nothing, _⟩ | ⟨wrote, _⟩
  · exact ⟨[], by rw [nothing, List.append_nil], List.nil_prefix, List.nil_prefix,
      fun ready => absurd ready failed⟩
  · refine ⟨_, wrote, List.cons_prefix_cons.mpr ⟨rfl, List.nil_prefix⟩, ?_,
      fun ready => absurd ready failed⟩
    simp only [List.map_cons, List.map_nil, marked, cut, List.append_nil]
    exact List.prefix_append _ _

/-- The receiver cuts what it gets at the announced sizes. -/
theorem receiveLoop_cut (fileSystem : FileSystem) (files : List FileMeta) (supply : Supply)
    (done : List Effect) (first : Nat) :
    CutsOff first files supply.bytes done (receiveLoop fileSystem files supply done) := by
  induction files generalizing supply done first with
  | nil => exact ⟨[], (List.append_nil _).symm, List.nil_prefix, List.nil_prefix, fun _ => rfl⟩
  | cons meta_ files ih =>
      have one := receiveFile_writes fileSystem meta_ supply done
      have stopped := CutsOff.stopped first fileSystem meta_ files supply done
      rw [receiveLoop]
      generalize receiveFile fileSystem meta_ supply done = received at one stopped ⊢
      obtain ⟨outcome, rest, later⟩ := received
      cases outcome with
      | ready value =>
          obtain ⟨wrote, left_⟩ := one.resolve_left fun failed => failed.2 rfl
          obtain ⟨pieces, others, places, start, whole⟩ := ih rest later (first + 1)
          rw [left_] at start whole
          refine ⟨(destination meta_, supply.bytes.take meta_.size) :: pieces, ?_, ?_, ?_, ?_⟩
          · rw [others, wrote, List.append_assoc]
            rfl
          · exact List.cons_prefix_cons.mpr ⟨rfl, places⟩
          · exact (List.prefix_append_right_inj _).mpr start
          · intro ready
            simp only [List.map_cons, marked, cut, List.append_assoc]
            rw [whole ready]
      | failed kind => exact stopped fun ready => by cases ready
      | pending => exact stopped fun ready => by cases ready
      | panicked panic => exact stopped fun ready => by cases ready
      | waiting => exact stopped fun ready => by cases ready

theorem CutsOff.taken {files : List FileMeta} {bytes : List UInt8}
    {run : Outcome Unit × Supply × List Effect} (cuts : CutsOff 0 files bytes [] run) :
    (writes run.2.2).map Prod.fst <+: files.map destination ∧
      Chat.taken run <+: cut 0 (files.map FileMeta.size) bytes ∧
      (run.1 = .ready () → Chat.taken run = cut 0 (files.map FileMeta.size) bytes) := by
  obtain ⟨pieces, wrote, places, start, whole⟩ := cuts
  have wrote : writes run.2.2 = pieces := wrote
  unfold Chat.taken
  rw [wrote]
  obtain ⟨outcome, rest, later⟩ := run
  refine ⟨places, ?_, ?_⟩
  · cases outcome with
    | ready value => exact (whole rfl) ▸ List.prefix_refl _
    | _ => exact (List.append_nil _).symm ▸ start
  · rintro ⟨rfl⟩
    exact whole rfl

/-! ## Kept sizes -/

/-- What was written for a file: the front of what it holds, as long as was announced. -/
def Announced (disk : LocalDisk) (file : LocalFileMeta) (chunk : List UInt8) : Prop :=
  (∃ content, disk file.localPath = some content ∧ chunk <+: content) ∧
    chunk.length = file.size

/-- `Ok` means that every file had its announced length on the stream; everything else is an
error.  Whatever part of the stream reaches the receiver, and however that ends, it does not mix
up the files, nor files and chat; after an error there is no chat. -/
structure KeepsSizes (debug : Bool) (disk : LocalDisk) (files : List LocalFileMeta)
    (sink : Sink) : Prop where
  kept : ∀ final, sendFiles debug disk files sink = (.ready (), final) →
    ∃ chunks, List.Forall₂ (Announced disk) files chunks ∧
      final.sent = sink.sent ++ chunks.flatten
  ends : (sendFiles debug disk files sink).1 = .ready () ∨
    ∃ kind, (sendFiles debug disk files sink).1 = .failed kind
  apart : ∀ receiverDebug fileSystem supply chat,
    ((sendFiles debug disk files sink).1 ≠ .ready () → chat = []) →
      supply.bytes <+: (sentFor debug disk files sink).flatten ++ chat →
        KeepsApart (files.map LocalFileMeta.public_) (sentFor debug disk files sink) chat
          (receiveFiles receiverDebug fileSystem (files.map LocalFileMeta.public_) supply)

/-- The files before the first that cannot be opened. -/
def opened (disk : LocalDisk) (files : List LocalFileMeta) : List LocalFileMeta :=
  files.takeWhile fun file => (disk file.localPath).isSome

/-- Where all files can be opened, all are as long as announced.  Those before one that cannot be
are no longer than announced, and no shorter either where another one behind them holds a byte. -/
structure SizesHold (disk : LocalDisk) (files : List LocalFileMeta) : Prop where
  all : (∀ file ∈ files, disk file.localPath ≠ none) →
    ∀ file ∈ files, (holds disk file).length = file.size
  atMost : ∀ file ∈ opened disk files, (holds disk file).length ≤ file.size
  before : (opened disk files).Pairwise fun earlier later =>
    holds disk later ≠ [] → (holds disk earlier).length = earlier.size

theorem opened_cons {disk : LocalDisk} {file : LocalFileMeta} {content : List UInt8}
    (held : disk file.localPath = some content) (files : List LocalFileMeta) :
    opened disk (file :: files) = file :: opened disk files := by
  rw [opened, List.takeWhile_cons_of_pos (by rw [held]; rfl)]
  rfl

theorem SizesHold.tail {disk : LocalDisk} {file : LocalFileMeta} {content : List UInt8}
    {files : List LocalFileMeta} (hold : SizesHold disk (file :: files))
    (held : disk file.localPath = some content) : SizesHold disk files := by
  obtain ⟨all, atMost, before⟩ := hold
  rw [opened_cons held] at atMost before
  refine ⟨fun there other member => ?_, fun other member => atMost other
    (List.mem_cons_of_mem _ member), (List.pairwise_cons.mp before).2⟩
  refine all (fun each among => ?_) other (List.mem_cons_of_mem _ member)
  rcases List.mem_cons.mp among with same | among
  · rw [same, held]
    exact nofun
  · exact there each among

/-- A byte that is sent comes from a file that was opened. -/
theorem sentChunks_opened (disk : LocalDisk) (files : List LocalFileMeta) (sink : Sink)
    (some_ : (sentChunks disk files sink).flatten ≠ []) :
    ∃ file ∈ opened disk files, holds disk file ≠ [] := by
  induction files generalizing sink with
  | nil => exact absurd rfl some_
  | cons file files ih =>
      rcases sendLoop_cons disk file files sink with ⟨_, _, sent⟩ |
        ⟨content, held, ⟨next, _, _, sent⟩ | ⟨next, front, _, start, _, sent⟩⟩
      · rw [sent] at some_
        exact absurd rfl some_
      · rw [sent, List.flatten_cons] at some_
        rw [opened_cons held]
        by_cases empty : content = []
        · rw [empty, List.nil_append] at some_
          obtain ⟨other, member, bytes⟩ := ih next some_
          exact ⟨other, List.mem_cons_of_mem _ member, bytes⟩
        · exact ⟨file, List.mem_cons_self, by rw [holds, held]; exact empty⟩
      · rw [sent, List.flatten_singleton] at some_
        refine ⟨file, by rw [opened_cons held]; exact List.mem_cons_self, ?_⟩
        rw [holds, held]
        intro empty
        rw [Option.getD_some] at empty
        rw [empty, List.prefix_nil] at start
        exact some_ start

/-- With sizes that hold, the receiver cuts where a file ends. -/
theorem SizesHold.aligned {disk : LocalDisk} {files : List LocalFileMeta}
    (hold : SizesHold disk files) (sink : Sink) (chat : List UInt8)
    (ends : (sendLoop disk files sink).1 = .ready () ∨ chat = []) :
    Aligned (files.map LocalFileMeta.size) (sentChunks disk files sink) chat := by
  induction files generalizing sink with
  | nil => trivial
  | cons file files ih =>
      rcases sendLoop_cons disk file files sink with ⟨_, _, sent⟩ |
        ⟨content, held, ⟨next, _, ran, sent⟩ | ⟨next, front, _, start, ran, sent⟩⟩
      · rw [sent]
        trivial
      · rw [sent]
        rw [ran] at ends
        obtain ⟨all, atMost, before⟩ := hold
        have own : holds disk file = content := by rw [holds, held]; rfl
        have hold_ := SizesHold.tail ⟨all, atMost, before⟩ held
        rw [opened_cons held] at atMost before
        rw [← own]
        refine ⟨atMost file List.mem_cons_self, ?_, ih hold_ next ends⟩
        by_cases nothing : (sentChunks disk files next).flatten ++ chat = []
        · exact .inr nothing
        · left
          by_cases sentNone : (sentChunks disk files next).flatten = []
          · have ready := ends.resolve_right fun silent => nothing (by rw [sentNone, silent]; rfl)
            have there := (sendLoop_ready disk files next ready).1
            exact all (List.forall_mem_cons.mpr ⟨by rw [held]; exact nofun, there⟩) file
              List.mem_cons_self
          · obtain ⟨later, member, bytes⟩ := sentChunks_opened disk files next sentNone
            exact (List.pairwise_cons.mp before).1 later member bytes
      · rw [sent]
        have silent : chat = [] := ends.resolve_left (by rw [ran]; exact nofun)
        have atMost := hold.atMost file (by rw [opened_cons held]; exact List.mem_cons_self)
        rw [holds, held, Option.getD_some] at atMost
        exact ⟨start.length_le.trans atMost, .inr (by rw [silent]; rfl), by cases files <;> trivial⟩

/-- A writer that does not fail gets all of the files that could be opened. -/
theorem sentChunks_all (disk : LocalDisk) (files : List LocalFileMeta) (already : List UInt8) :
    sentChunks disk files ⟨already, none⟩ = (opened disk files).map (holds disk) := by
  induction files generalizing already with
  | nil => rfl
  | cons file files ih =>
      cases held : disk file.localPath with
      | none =>
          rw [sentChunks, held, opened, List.takeWhile_cons_of_neg (by rw [held]; exact nofun)]
          rfl
      | some content =>
          rw [sentChunks, held, opened_cons held, List.map_cons, holds, held]
          simp only [Sink.writeAll, ih, Option.getD_some]

theorem sendLoop_all (disk : LocalDisk) (files : List LocalFileMeta) (already : List UInt8)
    (there : ∀ file ∈ files, disk file.localPath ≠ none) :
    (sendLoop disk files ⟨already, none⟩).1 = .ready () := by
  rw [sendLoop_content disk (holds disk) files (fun file member => ?_) already]
  obtain ⟨content, held⟩ := Option.ne_none_iff_exists'.mp (there file member)
  rw [holds, held]
  rfl

/-- Where the receiver cuts where a file ends, the files before one that cannot be opened are as
they have to be. -/
theorem aligned_holds (disk : LocalDisk) (files : List LocalFileMeta)
    (aligned : Aligned (files.map LocalFileMeta.size) ((opened disk files).map (holds disk)) []) :
    (∀ file ∈ opened disk files, (holds disk file).length ≤ file.size) ∧
      (opened disk files).Pairwise fun earlier later =>
        holds disk later ≠ [] → (holds disk earlier).length = earlier.size := by
  induction files with
  | nil => exact ⟨fun file member => absurd member List.not_mem_nil, .nil⟩
  | cons file files ih =>
      cases held : disk file.localPath with
      | none =>
          rw [opened, List.takeWhile_cons_of_neg (by rw [held]; exact nofun)]
          exact ⟨fun file member => absurd member List.not_mem_nil, .nil⟩
      | some content =>
          rw [opened_cons held] at aligned ⊢
          obtain ⟨atMost, exact_, others⟩ := aligned
          obtain ⟨atMosts, pairwise⟩ := ih others
          refine ⟨List.forall_mem_cons.mpr ⟨atMost, atMosts⟩, List.pairwise_cons.mpr ⟨?_, pairwise⟩⟩
          intro later member bytes
          refine exact_.resolve_right fun nothing => bytes ?_
          rw [List.append_nil, List.flatten_eq_nil_iff] at nothing
          exact nothing _ (List.mem_map_of_mem member)

theorem announced_length (disk : LocalDisk) (files : List LocalFileMeta)
    (chunks : List (List UInt8)) (announced : List.Forall₂ (Announced disk) files chunks)
    (same : chunks.flatten = (files.map (holds disk)).flatten) :
    ∀ file ∈ files, (holds disk file).length = file.size := by
  have below : ∀ files chunks, List.Forall₂ (Announced disk) files chunks →
      chunks.flatten.length ≤ (files.map (holds disk)).flatten.length := by
    intro files chunks announced
    induction announced with
    | nil => exact Nat.le_refl 0
    | cons first _ ih =>
        obtain ⟨⟨content, held, start⟩, _⟩ := first
        have shorter := start.length_le
        rw [List.map_cons, List.flatten_cons, List.flatten_cons, List.length_append,
          List.length_append, holds, held, Option.getD_some]
        omega
  have long := congrArg List.length same
  clear same
  induction announced with
  | nil => exact fun file member => absurd member List.not_mem_nil
  | @cons file chunk files chunks first others ih =>
      obtain ⟨⟨content, held, start⟩, sized⟩ := first
      have shorter := start.length_le
      have rest := below files chunks others
      have own : holds disk file = content := by rw [holds, held]; rfl
      rw [List.map_cons, List.flatten_cons, List.flatten_cons, List.length_append,
        List.length_append, own] at long
      refine List.forall_mem_cons.mpr ⟨by rw [own]; omega, ih (by omega)⟩

/-- The sizes are added before anything is sent. -/
theorem sendFiles_sums (debug : Bool) (disk : LocalDisk) (files : List LocalFileMeta)
    (sink : Sink) (fits : debug = true → (files.map LocalFileMeta.size).sum < 2 ^ 64) :
    sendFiles debug disk files sink = sendLoop disk files sink ∧
      sentFor debug disk files sink = sentChunks disk files sink := by
  obtain ⟨total, summed⟩ := sumSizes_ok debug (files.map LocalFileMeta.public_) 0 fun checked => by
    rw [public_sizes, Nat.zero_add]
    exact fits checked
  unfold sendFiles sentFor
  rw [summed]
  exact ⟨rfl, rfl⟩

/-- With sizes that hold, the receiver keeps apart what it gets. -/
theorem SizesHold.keepsApart {disk : LocalDisk} {files : List LocalFileMeta}
    (hold : SizesHold disk files) (sink : Sink) (receiverDebug : Bool) (fileSystem : FileSystem)
    (supply : Supply) (chat : List UInt8)
    (silent : (sendLoop disk files sink).1 ≠ .ready () → chat = [])
    (start : supply.bytes <+: (sentChunks disk files sink).flatten ++ chat) :
    KeepsApart (files.map LocalFileMeta.public_) (sentChunks disk files sink) chat
      (receiveFiles receiverDebug fileSystem (files.map LocalFileMeta.public_) supply) := by
  have count : (sentChunks disk files sink).length = (files.map LocalFileMeta.size).length ∨
      (sentChunks disk files sink).length ≤ (files.map LocalFileMeta.size).length ∧
        chat = [] := by
    rw [List.length_map]
    by_cases ready : (sendLoop disk files sink).1 = .ready ()
    · rw [(sendLoop_ready disk files sink ready).2, List.length_map]
      exact .inl rfl
    · exact .inr ⟨sentChunks_length disk files sink, silent ready⟩
  have cuts := (cut_eq_iff 0 _ _ chat count).mpr
    (hold.aligned sink chat (or_iff_not_imp_left.mpr silent))
  unfold receiveFiles
  cases sumSizes receiverDebug (files.map LocalFileMeta.public_) 0 with
  | error panic => exact ⟨List.nil_prefix, List.nil_prefix⟩
  | ok total =>
      obtain ⟨places, takes, _⟩ := (receiveLoop_cut fileSystem
        (files.map LocalFileMeta.public_) supply [] 0).taken
      rw [public_sizes] at takes
      exact ⟨places, takes.trans (cuts ▸ cut_prefix 0 _ start)⟩

section Necessary

variable {debug : Bool} {disk : LocalDisk} {files : List LocalFileMeta}

/-- Nothing panics, so the sum fits. -/
theorem KeepsSizes.fits {sink : Sink} (keeps : KeepsSizes debug disk files sink) :
    debug = true → (files.map LocalFileMeta.size).sum < 2 ^ 64 := by
  rintro rfl
  by_contra tooMuch
  have panics := sumSizes_overflow (files.map LocalFileMeta.public_) 0
    (by rw [public_sizes]; omega) (by decide)
  have ends := keeps.ends
  simp [sendFiles, panics] at ends

/-- Where all files can be opened, `Ok` is returned, and each is as long as announced. -/
theorem KeepsSizes.all (keeps : KeepsSizes debug disk files ⟨[], none⟩)
    (there : ∀ file ∈ files, disk file.localPath ≠ none) :
    ∀ file ∈ files, (holds disk file).length = file.size := by
  have ready := sendLoop_all disk files [] there
  have sends := (sendFiles_sums debug disk files ⟨[], none⟩ keeps.fits).1
  obtain ⟨announced, each, sent⟩ := keeps.kept _ (sends.trans (Prod.ext ready rfl))
  rw [sendLoop_sent, (sendLoop_ready disk files _ ready).2] at sent
  exact announced_length disk files announced each (List.append_cancel_left sent).symm

/-- A receiver on which nothing fails cuts what is sent where the files end. -/
theorem KeepsSizes.cuts (keeps : KeepsSizes debug disk files ⟨[], none⟩) :
    cut 0 (files.map LocalFileMeta.size) (((opened disk files).map (holds disk)).flatten ++ []) =
      marked 0 ((opened disk files).map (holds disk)) ++ behind [] := by
  have apart := keeps.apart
  rw [(sendFiles_sums debug disk files ⟨[], none⟩ keeps.fits).2, sentChunks_all] at apart
  obtain ⟨total, summed⟩ := sumSizes_release (files.map LocalFileMeta.public_) 0
  obtain ⟨rest, later, received⟩ := receiveLoop_working (files.map LocalFileMeta.public_)
    ((opened disk files).map (holds disk)).flatten []
  obtain ⟨_, _, whole⟩ := (receiveLoop_cut workingFileSystem
    (files.map LocalFileMeta.public_)
    ⟨((opened disk files).map (holds disk)).flatten, .endOfStream⟩ [] 0).taken
  have takes := (apart false workingFileSystem
    ⟨((opened disk files).map (holds disk)).flatten, .endOfStream⟩ [] (fun _ => rfl)
    (List.prefix_append _ _)).bytes
  simp only [receiveFiles, summed] at takes
  rw [whole (by rw [received]), public_sizes] at takes
  rw [List.append_nil]
  apply takes.eq_of_length
  rw [cut_length, List.length_append, marked_length]
  rfl

theorem KeepsSizes.sizesHold (keeps : KeepsSizes debug disk files ⟨[], none⟩) :
    SizesHold disk files := by
  have fewer : ((opened disk files).map (holds disk)).length ≤
      (files.map LocalFileMeta.size).length := by
    rw [List.length_map, List.length_map]
    exact (List.takeWhile_sublist _).length_le
  have aligned := (cut_eq_iff 0 _ _ [] (.inr ⟨fewer, rfl⟩)).mp keeps.cuts
  obtain ⟨atMost, before⟩ := aligned_holds disk files aligned
  exact ⟨keeps.all, atMost, before⟩

end Necessary

/-- With sizes that hold, and a sum that fits, they are kept. -/
theorem SizesHold.keepsSizes {debug : Bool} {disk : LocalDisk} {files : List LocalFileMeta}
    (hold : SizesHold disk files)
    (fits : debug = true → (files.map LocalFileMeta.size).sum < 2 ^ 64) (sink : Sink) :
    KeepsSizes debug disk files sink := by
  obtain ⟨sends, chunks⟩ := sendFiles_sums debug disk files sink fits
  have outcome := sendLoop_outcome disk files sink
  rw [← sends] at outcome
  refine ⟨?_, outcome.imp_right fun failed => ⟨.inner, failed⟩, ?_⟩
  · intro final run
    rw [sends] at run
    have ready : (sendLoop disk files sink).1 = .ready () := by rw [run]
    obtain ⟨there, all⟩ := sendLoop_ready disk files sink ready
    have sent := sendLoop_sent disk files sink
    rw [run, all] at sent
    refine ⟨files.map (holds disk), ?_, sent⟩
    rw [List.forall₂_map_right_iff, List.forall₂_same]
    intro file member
    obtain ⟨content, held⟩ := Option.ne_none_iff_exists'.mp (there file member)
    refine ⟨⟨content, held, ?_⟩, hold.all there file member⟩
    rw [holds, held]
    exact List.prefix_refl _
  · intro receiverDebug fileSystem supply chat silent start
    rw [chunks] at start ⊢
    rw [sends] at silent
    exact hold.keepsApart sink receiverDebug fileSystem supply chat silent start

/-- The sizes are kept exactly where they hold when the files are sent, and their sum fits where
overflow is checked. -/
theorem keepsSizes_iff (debug : Bool) (disk : LocalDisk) (files : List LocalFileMeta) :
    (∀ sink, KeepsSizes debug disk files sink) ↔
      (debug = true → (files.map LocalFileMeta.size).sum < 2 ^ 64) ∧ SizesHold disk files := by
  constructor
  · intro keeps
    exact ⟨(keeps ⟨[], none⟩).fits, (keeps ⟨[], none⟩).sizesHold⟩
  · rintro ⟨fits, hold⟩ sink
    exact hold.keepsSizes fits sink

/-- The first file has grown by a byte, and all of it is sent. -/
theorem grown_file_sent :
    ¬ KeepsSizes true (fun _ => some [65, 66]) [⟨['/', 'a'], ['a'], 1⟩] ⟨[], none⟩ := by
  intro keeps
  obtain ⟨chunks, announced, sent⟩ := keeps.kept _ rfl
  cases announced with
  | cons first others =>
      cases others
      have longer := (congrArg List.length sent).symm
      simp [first.2] at longer

end Gday.Chat
