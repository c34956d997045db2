import Gday.Chat.FileDialog
import Gday.Lib.Duplex
import Gday.Lib.Lines
import Gday.Lib.Postcard

/-! # The chat

`start_chat` of one peer: `chat_talk` takes lines from the user and `chat_listen` prints those
of the peer, at once, until one of them returns.  Both peers talk at any time, and the stream
to a listener may end anywhere. -/
set_option autoImplicit false
namespace Gday.Chat

open Relation
open Gday.Lib.Duplex Gday.Lib.Lines Gday.Lib.Transition
open Gday.Lib.Postcard (isUtf8)

/-- `garbled` is the error for a whole line that is not UTF-8. -/
inductive ChatStatus where
  | running
  | returned
  | failed
  | garbled
  deriving DecidableEq, Repr

/-- `typed` are the lines that were not blank, `unsent` is what is not yet written of the last
one, until it was flushed; `pending` is read of the line that is not complete. -/
structure ChatPeer where
  typed : List (List Char)
  unsent : Option (List UInt8)
  pending : List UInt8
  printed : List (List UInt8)
  status : ChatStatus
  deriving DecidableEq, Repr

namespace ChatPeer

def start : ChatPeer := ⟨[], none, [], [], .running⟩

/-- What `chat_talk` writes for a line. -/
def lineBytes (text : List Char) : List UInt8 := encodeText text ++ [10]

/-- A line of the user, which is not sent where there is nothing but white space. -/
def enter (peer : ChatPeer) (text : List Char) : ChatPeer :=
  if trim text = [] then peer
  else { peer with typed := peer.typed ++ [text], unsent := some (lineBytes text) }

/-- `next_line` has the bytes of a line behind which there is a line feed. -/
def showLine (peer : ChatPeer) (line : List UInt8) : ChatPeer :=
  if isUtf8 line then { peer with pending := [], printed := peer.printed ++ [chomp 13 line] }
  else { peer with status := .garbled }

/-- The stream has ended.  What is there of a line is printed as one. -/
def endOfStream (peer : ChatPeer) : ChatPeer :=
  if peer.pending = [] then { peer with status := .returned }
  else if isUtf8 peer.pending then
    { peer with pending := [], printed := peer.printed ++ [peer.pending], status := .returned }
  else { peer with status := .failed }

inductive Step : ChatPeer → Option Io → ChatPeer → Prop where
  | enter (peer : ChatPeer) (text : List Char) (running : peer.status = .running)
      (idle : peer.unsent = none) : Step peer none (peer.enter text)
  | write (peer : ChatPeer) (sent rest : List UInt8) (running : peer.status = .running)
      (unsent : peer.unsent = some (sent ++ rest)) (some_ : sent ≠ []) :
      Step peer (some (.write sent)) { peer with unsent := some rest }
  | flush (peer : ChatPeer) (running : peer.status = .running) (unsent : peer.unsent = some []) :
      Step peer (some .flush) { peer with unsent := none }
  | quit (peer : ChatPeer) (running : peer.status = .running) (idle : peer.unsent = none) :
      Step peer none { peer with status := .returned }
  | part (peer : ChatPeer) (given : List UInt8) (running : peer.status = .running)
      (plain : 10 ∉ given) :
      Step peer (some (.read given)) { peer with pending := peer.pending ++ given }
  | line (peer : ChatPeer) (given : List UInt8) (running : peer.status = .running)
      (plain : 10 ∉ given) :
      Step peer (some (.read (given ++ [10]))) (peer.showLine (peer.pending ++ given))
  | endOfStream (peer : ChatPeer) (running : peer.status = .running) :
      Step peer none peer.endOfStream
  | error (peer : ChatPeer) (running : peer.status = .running) :
      Step peer none { peer with status := .failed }

def lts : Lts ChatPeer Io := ⟨Step⟩

/-- The lines that a text is for the one who reads it. -/
def shownLines (text : List Char) : List (List Char) := (text.splitOn '\n').map (chomp '\r')

/-! ## The talker -/

/-- All that was entered is written, or still unsent. -/
def Talks (peer : ChatPeer) (written : List UInt8) : Prop :=
  written ++ peer.unsent.getD [] = peer.typed.flatMap lineBytes

theorem Talks.enter {peer : ChatPeer} {written : List UInt8} (talks : peer.Talks written)
    (idle : peer.unsent = none) (text : List Char) : (peer.enter text).Talks written := by
  unfold ChatPeer.enter
  split
  · exact talks
  · unfold Talks at talks ⊢
    rw [idle] at talks
    rw [List.flatMap_append, List.flatMap_singleton, ← talks, Option.getD_none, List.append_nil]
    rfl

theorem Talks.same {peer next : ChatPeer} {written : List UInt8} (talks : peer.Talks written)
    (typed : next.typed = peer.typed) (unsent : next.unsent = peer.unsent) :
    next.Talks written := by
  unfold Talks at talks ⊢
  rw [typed, unsent]
  exact talks

theorem Talks.step {peer next : ChatPeer} {label : Option Io} {written : List UInt8}
    (talks : peer.Talks written) (step : Step peer label next) :
    next.Talks (written ++ wroteBy label) := by
  cases step with
  | write sent rest running unsent some_ =>
      unfold Talks at talks ⊢
      rw [unsent] at talks
      rw [← talks]
      exact List.append_assoc ..
  | enter text running idle =>
      rw [show wroteBy _ = [] from rfl, List.append_nil]
      exact talks.enter idle text
  | flush running unsent =>
      rw [show wroteBy _ = [] from rfl, List.append_nil]
      unfold Talks at talks ⊢
      rw [unsent] at talks
      exact talks
  | line given running plain =>
      rw [show wroteBy _ = [] from rfl, List.append_nil]
      unfold showLine
      split
      · exact talks.same rfl rfl
      · exact talks.same rfl rfl
  | endOfStream running =>
      rw [show wroteBy _ = [] from rfl, List.append_nil]
      unfold ChatPeer.endOfStream
      split
      · exact talks.same rfl rfl
      · split
        · exact talks.same rfl rfl
        · exact talks.same rfl rfl
  | _ =>
      rw [show wroteBy _ = [] from rfl, List.append_nil]
      exact talks.same rfl rfl

/-- A line that is done was flushed. -/
def Flushes (peer : ChatPeer) (pipe : Pipe) : Prop :=
  peer.unsent = none → pipe.flushed = pipe.written.length

theorem Flushes.same {peer next : ChatPeer} {pipe after : Pipe} (flushes : peer.Flushes pipe)
    (unsent : next.unsent = peer.unsent) (flushed : after.flushed = pipe.flushed)
    (written : after.written = pipe.written ++ []) : next.Flushes after := by
  unfold Flushes at flushes ⊢
  rw [unsent, flushed, written, List.append_nil]
  exact flushes

theorem Flushes.step {peer next : ChatPeer} {label : Option Io} {pipe after : Pipe}
    (flushes : peer.Flushes pipe) (step : Step peer label next)
    (written : after.written = pipe.written ++ wroteBy label)
    (flushed : after.flushed = pipe.flushedBy label) : next.Flushes after := by
  cases step with
  | write sent rest running unsent some_ => exact fun done => nomatch done
  | flush running unsent =>
      intro _
      rw [flushed, written]
      exact congrArg List.length (List.append_nil _).symm
  | enter text running idle =>
      unfold ChatPeer.enter
      split
      · exact flushes.same rfl flushed written
      · exact fun done => nomatch done
  | line given running plain =>
      unfold showLine
      split
      · exact flushes.same rfl flushed written
      · exact flushes.same rfl flushed written
  | endOfStream running =>
      unfold ChatPeer.endOfStream
      split
      · exact flushes.same rfl flushed written
      · split
        · exact flushes.same rfl flushed written
        · exact flushes.same rfl flushed written
  | _ => exact flushes.same rfl flushed written

/-! ## The listener -/

/-- What was printed of the bytes that were read: all complete lines, and perhaps at the end what
was there of another one. -/
structure Listens (peer : ChatPeer) (consumed : List UInt8) : Prop where
  calm : peer.status ≠ .garbled
  lines : peer.printed = (complete 10 consumed).map (chomp 13) ∨
    peer.status ≠ .running ∧ rest 10 consumed ≠ [] ∧
      peer.printed = (complete 10 consumed).map (chomp 13) ++ [rest 10 consumed]
  pending : peer.status = .running → peer.pending = rest 10 consumed

theorem Listens.running {peer : ChatPeer} {consumed : List UInt8}
    (listens : peer.Listens consumed) (running : peer.status = .running) :
    peer.printed = (complete 10 consumed).map (chomp 13) ∧ peer.pending = rest 10 consumed := by
  refine ⟨?_, listens.pending running⟩
  rcases listens.lines with lines | ⟨stopped, _⟩
  · exact lines
  · exact absurd running stopped

theorem Listens.same {peer next : ChatPeer} {consumed : List UInt8}
    (listens : peer.Listens consumed) (status : next.status = peer.status)
    (printed : next.printed = peer.printed) (pending : next.pending = peer.pending) :
    next.Listens consumed := by
  obtain ⟨calm, lines, left_⟩ := listens
  rw [← status] at calm lines left_
  rw [← printed] at lines
  rw [← pending] at left_
  exact ⟨calm, lines, left_⟩

theorem Listens.stops {peer next : ChatPeer} {consumed : List UInt8}
    (listens : peer.Listens consumed) (running : peer.status = .running)
    (printed : next.printed = peer.printed) (stopped : next.status ≠ .running)
    (calm : next.status ≠ .garbled) : next.Listens consumed where
  calm := calm
  lines := .inl (printed.trans (listens.running running).1)
  pending still := absurd still stopped

/-- `valid` says that every line is UTF-8 that is completed by these bytes. -/
theorem Listens.step {peer next : ChatPeer} {label : Option Io} {consumed : List UInt8}
    (listens : peer.Listens consumed) (step : Step peer label next)
    (valid : ∀ given, tookBy label = given ++ [10] → 10 ∉ given →
      isUtf8 (rest 10 (consumed ++ given))) :
    next.Listens (consumed ++ tookBy label) := by
  cases step with
  | part given running plain =>
      obtain ⟨printed, pending⟩ := listens.running running
      obtain ⟨lines, left_⟩ := append_plain 10 consumed given plain
      refine ⟨listens.calm, .inl ?_, fun _ => ?_⟩
      · rw [show tookBy _ = given from rfl, lines]
        exact printed
      · rw [show tookBy _ = given from rfl, left_, ← pending]
  | line given running plain =>
      obtain ⟨printed, pending⟩ := listens.running running
      obtain ⟨lines, left_⟩ := append_plain 10 consumed given plain
      obtain ⟨lines', left'⟩ := append_feed 10 (consumed ++ given)
      have own := valid given rfl plain
      rw [left_, ← pending] at own
      unfold showLine
      rw [if_pos own]
      rw [show tookBy _ = given ++ [10] from rfl, ← List.append_assoc]
      refine ⟨listens.calm, .inl ?_, fun _ => left'.symm⟩
      rw [lines', lines, left_, List.map_append, ← printed, ← pending]
      rfl
  | endOfStream running =>
      obtain ⟨printed, pending⟩ := listens.running running
      rw [show tookBy _ = [] from rfl, List.append_nil]
      unfold ChatPeer.endOfStream
      split
      · exact ⟨by simp, .inl printed, by simp⟩
      · rename_i some_
        split
        · rw [pending] at some_
          exact ⟨by simp, .inr ⟨by simp, some_, by rw [← printed, ← pending]⟩, by simp⟩
        · exact ⟨by simp, .inl printed, by simp⟩
  | enter text running idle =>
      rw [show tookBy _ = [] from rfl, List.append_nil]
      unfold ChatPeer.enter
      split
      · exact listens
      · exact listens.same rfl rfl rfl
  | quit running idle =>
      rw [show tookBy _ = [] from rfl, List.append_nil]
      exact listens.stops running rfl (by simp) (by simp)
  | error running =>
      rw [show tookBy _ = [] from rfl, List.append_nil]
      exact listens.stops running rfl (by simp) (by simp)
  | write sent rest running unsent some_ =>
      rw [show tookBy _ = [] from rfl, List.append_nil]
      exact listens.same rfl rfl rfl
  | flush running unsent =>
      rw [show tookBy _ = [] from rfl, List.append_nil]
      exact listens.same rfl rfl rfl

end ChatPeer

/-! ## Both peers -/

/-- The lines of what was entered. -/
theorem lines_of_texts (texts : List (List Char)) :
    complete 10 (texts.flatMap ChatPeer.lineBytes) =
        (texts.flatMap (List.splitOn '\n')).map encodeText ∧
      rest 10 (texts.flatMap ChatPeer.lineBytes) = [] := by
  obtain ⟨lines, last⟩ := complete_lines (10 : UInt8) (texts.map encodeText)
  rw [List.flatMap_map, List.flatMap_map] at lines
  rw [List.flatMap_map] at last
  refine ⟨?_, last⟩
  rw [List.map_flatMap]
  refine lines.trans (List.flatMap_congr fun text _ => ?_)
  exact encodeText_splitOn text

theorem isUtf8_encodeText (text : List Char) : isUtf8 (encodeText text) := by
  refine ⟨text, ?_⟩
  apply ByteArray.ext
  rw [List.utf8Encode, List.data_toByteArray]
  rfl

/-- What was read of a stream of lines completes only lines of text. -/
theorem completed_isUtf8 {texts : List (List Char)} {bytes : List UInt8}
    (start : bytes ++ [10] <+: texts.flatMap ChatPeer.lineBytes) : isUtf8 (rest 10 bytes) := by
  have lines := (of_start 10 start).1
  rw [(append_feed 10 bytes).1, (lines_of_texts texts).1] at lines
  have member : rest 10 bytes ∈ (texts.flatMap (List.splitOn '\n')).map encodeText :=
    lines.subset (List.mem_append_right _ List.mem_cons_self)
  obtain ⟨line, _, same⟩ := List.mem_map.mp member
  rw [← same]
  exact isUtf8_encodeText line

/-- Two peers with a stream in each direction. -/
structure Conversing (state : System ChatPeer Pipe) : Prop where
  talks : ∀ side, (state.programs side).Talks (state.channels side).written
  flushes : ∀ side, (state.programs side).Flushes (state.channels side)
  listens : ∀ side, (state.programs side).Listens (state.channels (!side)).given

def startChat : System ChatPeer Pipe := ⟨fun _ => ChatPeer.start, fun _ => .empty⟩

theorem start_conversing : Conversing startChat where
  talks _ := rfl
  flushes _ _ := rfl
  listens _ := ⟨by simp [startChat, ChatPeer.start], .inl rfl, fun _ => rfl⟩

/-- What is written is a beginning of all the lines. -/
theorem Conversing.written_start {state : System ChatPeer Pipe} (conversing : Conversing state)
    (side : Bool) :
    (state.channels side).written <+: (state.programs side).typed.flatMap ChatPeer.lineBytes :=
  ⟨_, conversing.talks side⟩

theorem Conversing.step {capacity : Option Nat} {side : Bool} {state next : System ChatPeer Pipe}
    (conversing : Conversing state) (step : System.By ChatPeer.lts capacity side state next) :
    Conversing next := by
  obtain ⟨label, own, effect⟩ := step.effect
  have others := step.programs_other (Bool.not_ne_self side)
  have talks := (conversing.talks side).step own
  have flushes := (conversing.flushes side).step own effect.written effect.flushed
  have listens := (conversing.listens side).step own (by
    intro line took _
    have start := (next.channels (!side)).given_start
    rw [effect.given, took, effect.unwritten, ← List.append_assoc] at start
    exact completed_isUtf8 (start.trans (conversing.written_start (!side))))
  refine ⟨fun which => ?_, fun which => ?_, fun which => ?_⟩
  · by_cases same : which = side
    · subst same
      rw [effect.written]
      exact talks
    · have other := Bool.eq_not.mpr same
      subst other
      rw [others, effect.unwritten]
      exact conversing.talks _
  · by_cases same : which = side
    · subst same
      exact flushes
    · have other := Bool.eq_not.mpr same
      subst other
      unfold ChatPeer.Flushes
      rw [others, effect.unflushed, effect.unwritten]
      exact conversing.flushes _
  · by_cases same : which = side
    · subst same
      rw [effect.given]
      exact listens
    · have other := Bool.eq_not.mpr same
      subst other
      have before := conversing.listens (!side)
      rw [Bool.not_not] at before ⊢
      rw [others, effect.ungiven]
      exact before

theorem Conversing.run {capacity : Option Nat} {start state : System ChatPeer Pipe}
    (conversing : Conversing start)
    (reached : ReflTransGen (System.lts ChatPeer.lts (Pipe.lts capacity)).Moves start state) :
    Conversing state := by
  induction reached with
  | refl => exact conversing
  | tail _ moves ih =>
      obtain ⟨side, step⟩ := System.moves_iff.mp moves
      exact ih.step step

/-- The lines that were entered, as they are printed. -/
def linesOf (texts : List (List Char)) : List (List UInt8) :=
  (texts.flatMap ChatPeer.shownLines).map encodeText

/-- In the order in which they were entered; where the stream ended, the last one may be the
beginning of a line that did not arrive whole. -/
def Prints (peer other : ChatPeer) : Prop :=
  peer.printed <+: linesOf other.typed ∨
    peer.status ≠ .running ∧ ∃ lines cut line, peer.printed = lines ++ [cut] ∧
      lines <+: linesOf other.typed ∧
      (other.typed.flatMap (List.splitOn '\n'))[lines.length]? = some line ∧ cut <+: encodeText line

theorem linesOf_eq (texts : List (List Char)) :
    ((texts.flatMap (List.splitOn '\n')).map encodeText).map (chomp 13) = linesOf texts := by
  have shown : texts.flatMap ChatPeer.shownLines =
      (texts.flatMap (List.splitOn '\n')).map (chomp '\r') :=
    (List.map_flatMap ..).symm
  rw [linesOf, shown, List.map_map, List.map_map]
  exact List.map_congr_left fun line _ => encodeText_chomp line

/-- Who has read a beginning of all the lines prints a beginning of them. -/
theorem prints_of_start {peer other : ChatPeer} {consumed : List UInt8}
    (listens : peer.Listens consumed)
    (start : consumed <+: other.typed.flatMap ChatPeer.lineBytes) : Prints peer other := by
  obtain ⟨whole, line, next, begins⟩ := of_start 10 start
  rw [splitOn_eq, (lines_of_texts _).2, (lines_of_texts _).1] at next
  rw [(lines_of_texts _).1] at whole
  have lines := whole.map (chomp 13)
  rw [linesOf_eq] at lines
  rcases listens.lines with printed | ⟨stopped, some_, printed⟩
  · left
    rw [printed]
    exact lines
  · refine .inr ⟨stopped, (complete 10 consumed).map (chomp 13), rest 10 consumed, ?_⟩
    rcases Nat.lt_or_ge (complete 10 consumed).length
      (other.typed.flatMap (List.splitOn '\n')).length with inside | behind
    · rw [List.getElem?_append_left (by simpa using inside), List.getElem?_map] at next
      obtain ⟨text, found, same⟩ := Option.map_eq_some_iff.mp next
      refine ⟨text, printed, lines, ?_, ?_⟩
      · rw [List.length_map]
        exact found
      · rw [same]
        exact begins
    · rw [List.getElem?_append_right (by simpa using behind)] at next
      have empty := List.mem_singleton.mp (List.mem_of_getElem? next)
      rw [empty] at begins
      exact absurd (List.prefix_nil.mp begins) some_

theorem Conversing.prints {state : System ChatPeer Pipe} (conversing : Conversing state)
    (side : Bool) : Prints (state.programs side) (state.programs (!side)) :=
  prints_of_start (conversing.listens side)
    ((state.channels (!side)).given_start.trans (conversing.written_start (!side)))

/-- A line that is done was flushed whole, and who has taken all of it has printed it. -/
theorem Conversing.done {state : System ChatPeer Pipe} (conversing : Conversing state)
    (side : Bool) (idle : (state.programs (!side)).unsent = none) :
    (state.channels (!side)).flushed = (state.channels (!side)).written.length ∧
      ((state.programs side).status = .running → (state.channels (!side)).queue = [] →
        (state.programs side).printed = linesOf (state.programs (!side)).typed) := by
  refine ⟨conversing.flushes (!side) idle, fun running drained => ?_⟩
  have all := (state.channels !side).given_queue
  have talks := conversing.talks (!side)
  unfold ChatPeer.Talks at talks
  rw [idle, Option.getD_none, List.append_nil, ← all, drained, List.append_nil] at talks
  rw [((conversing.listens side).running running).1, talks, (lines_of_texts _).1, linesOf_eq]

/-- A text of one line is printed as it was entered. -/
theorem shownLines_plain {text : List Char} (line : '\n' ∉ text)
    (plain : text.getLast? ≠ some '\r') : ChatPeer.shownLines text = [text] := by
  unfold ChatPeer.shownLines chomp
  rw [List.splitOn_eq_singleton line, List.map_singleton, if_neg plain]

/-- However the peers take turns and their bytes are cut: a peer prints lines that the other one
entered, in their order, and no line that was entered fails it.  A line that is done was flushed
whole, and once it has arrived all lines are printed.  Printed is what was handed to `writeln!`,
and written are the bytes of all lines. -/
theorem chat_prints {capacity : Option Nat} {state : System ChatPeer Pipe}
    (reached : ReflTransGen (System.lts ChatPeer.lts (Pipe.lts capacity)).Moves startChat state)
    (side : Bool) :
    (state.programs side).status ≠ .garbled ∧
      Prints (state.programs side) (state.programs (!side)) ∧
      ((state.programs (!side)).unsent = none →
        (state.channels (!side)).flushed = (state.channels (!side)).written.length ∧
        ((state.programs side).status = .running → (state.channels (!side)).queue = [] →
          (state.programs side).printed = linesOf (state.programs (!side)).typed)) := by
  have conversing := start_conversing.run reached
  exact ⟨(conversing.listens side).calm, conversing.prints side, conversing.done side⟩

def chatState (one other : ChatPeer) (pipe : Pipe) : System ChatPeer Pipe where
  programs side := if side then one else other
  channels side := if side then pipe else .empty

theorem chatState_talks {capacity : Option Nat} {one next other : ChatPeer} {pipe after : Pipe}
    {act : Io} (own : ChatPeer.Step one (some act) next)
    (its : Pipe.Step capacity pipe (some act) after) (writes : act.isRead = false) :
    System.By ChatPeer.lts capacity true (chatState one other pipe)
      (chatState next other after) := by
  have mine : act.stream true = true := by
    cases act with
    | read given => cases writes
    | _ => rfl
  refine .act_of own its rfl (by rw [mine]; rfl) ?_
  unfold System.move chatState
  rw [mine]
  congr 1 <;> funext side <;> cases side <;> rfl

/-- One side enters a line of two letters, and the other one reads it. -/
theorem hi_printed : ∃ state : System ChatPeer Pipe,
    ReflTransGen (System.lts ChatPeer.lts (Pipe.lts (some 3))).Moves startChat state ∧
      (state.programs false).printed = linesOf [['h', 'i']] := by
  let entered := ChatPeer.start.enter ['h', 'i']
  let written := Pipe.empty.write [104, 105, 10]
  have there : [104, 105, 10] <+: written.flush.queue := by decide
  have enters : System.By ChatPeer.lts (some 3) true startChat
      (chatState entered .start .empty) := by
    refine .compute_of (.enter _ ['h', 'i'] rfl rfl) rfl ?_
    unfold System.advance startChat chatState
    congr 1 <;> funext side <;> cases side <;> rfl
  have writes : System.By ChatPeer.lts (some 3) true (chatState entered .start .empty)
      (chatState { entered with unsent := some [] } .start written) :=
    chatState_talks (.write entered [104, 105, 10] [] (by decide) (by decide) (by decide))
      (.write .empty [104, 105, 10] (fun bound given => by cases given; decide)) rfl
  have flushes : System.By ChatPeer.lts (some 3) true
      (chatState { entered with unsent := some [] } .start written)
      (chatState { entered with unsent := none } .start written.flush) :=
    chatState_talks (.flush { entered with unsent := some [] } (by decide) rfl) (.flush written) rfl
  have reads : System.By ChatPeer.lts (some 3) false
      (chatState { entered with unsent := none } .start written.flush)
      (chatState { entered with unsent := none } (ChatPeer.start.showLine [104, 105])
        (written.flush.read [104, 105, 10] there)) := by
    refine .act_of (.line .start [104, 105] rfl (by decide)) (.read written.flush _ there) rfl
      rfl ?_
    unfold System.move chatState
    congr 1 <;> funext side <;> cases side <;> rfl
  have reached : ReflTransGen (System.lts ChatPeer.lts (Pipe.lts (some 3))).Moves startChat _ :=
    (((ReflTransGen.single (System.moves_iff.mpr ⟨_, enters⟩)).tail
      (System.moves_iff.mpr ⟨_, writes⟩)).tail (System.moves_iff.mpr ⟨_, flushes⟩)).tail
      (System.moves_iff.mpr ⟨_, reads⟩)
  obtain ⟨_, _, done⟩ := chat_prints reached false
  refine ⟨_, reached, (done rfl).2 ?_ ?_⟩
  · have text : isUtf8 [104, 105] := isUtf8_encodeText ['h', 'i']
    simp [chatState, ChatPeer.showLine, text, ChatPeer.start]
  · rfl

end Gday.Chat
