import Gday.Encryption.LostPlaintext

/-! # Polls of the writer that end

`poll_flush_local` goes on as long as a byte of the frame is left, and an inner writer may
answer that it took none.  A poll ends if and only if an answer interrupts it or the answers
add up to what it has to write. -/
set_option autoImplicit false
namespace Gday.Encryption

open Gday.Lib.AsyncStream Gday.Lib.Framing Gday.Lib.Machine

inductive WriterOp where
  | write (buf : List UInt8)
  | flush
  | shutdown
  deriving DecidableEq, Repr

def WriterOp.call : WriterOp → List WriteEvent → WriterCall
  | .write buf => .pollWrite buf
  | .flush => .pollFlush
  | .shutdown => .pollShutdown

/-- The first `count` answers of the inner writer. -/
def firstAnswers (answers : Nat → WriteEvent) (count : Nat) : List WriteEvent :=
  (List.range count).map answers

/-- What the answers let the inner writer take. -/
def allowance : List WriteEvent → Nat
  | [] => 0
  | .ready limit :: events => limit + allowance events
  | .pending :: events => allowance events
  | .error :: events => allowance events

def Interrupted (answers : Nat → WriteEvent) : Prop :=
  ∃ place, answers place = .pending ∨ answers place = .error

namespace EncryptedWriter

/-- The length of the frame that a flush makes; there is none once the counter is used up. -/
def newFrame (aead : StreamAead) (writer : EncryptedWriter) : Nat :=
  if writer.encryptor.position = aead.counterMax then 0
  else 4 + (writer.buffered.length + ciphertextOverhead)

/-- The bytes that a poll has to write before it returns. -/
def owed (aead : StreamAead) (writer : EncryptedWriter) (op : WriterOp) : Nat :=
  if writer.isFlushing then writer.bytes.unread.length
  else
    match op with
    | .write _ => 0
    | .flush => newFrame aead writer
    | .shutdown => newFrame aead writer

/-! ## The flush loop -/

theorem ready_ended {α : Type} (value : α) : Outcome.ready value ≠ .waiting := by
  intro same
  cases same

theorem failed_ended {α : Type} (kind : ErrorKind) :
    (.failed kind : Outcome α) ≠ .waiting := by
  intro same
  cases same

theorem pending_ended {α : Type} : (.pending : Outcome α) ≠ .waiting := by
  intro same
  cases same

theorem panicked_ended {α : Type} (panic : Panic) :
    (.panicked panic : Outcome α) ≠ .waiting := by
  intro same
  cases same

theorem flushLoop_waiting (events : List WriteEvent) (writer : EncryptedWriter)
    (flushing : writer.Flushing) :
    (flushLoop events writer).outcome = .waiting ↔
      (∀ event ∈ events, ∃ limit, event = .ready limit) ∧
        allowance events < writer.bytes.unread.length := by
  induction events generalizing writer with
  | nil =>
      rw [flushLoop, flushing.wellFormed.data_eq]
      cases writer.bytes.unread with
      | nil =>
          exact ⟨fun waits => absurd waits (ready_ended ()),
            fun waits => absurd waits.2 (Nat.not_lt_zero _)⟩
      | cons byte rest =>
          exact ⟨fun _ => ⟨List.forall_mem_nil _, Nat.succ_pos _⟩, fun _ => rfl⟩
  | cons event events ih =>
      rw [flushLoop, flushing.wellFormed.data_eq]
      by_cases none : writer.bytes.unread = []
      · simp only [none, List.isEmpty_nil, if_true]
        exact ⟨fun waits => absurd waits (ready_ended ()),
          fun waits => absurd waits.2 (Nat.not_lt_zero _)⟩
      · simp only [List.isEmpty_eq_false_iff.mpr none, Bool.false_eq_true, if_false]
        rw [List.forall_mem_cons]
        cases event with
        | pending =>
            refine ⟨fun waits => absurd waits pending_ended, ?_⟩
            rintro ⟨⟨⟨limit, other⟩, -⟩, -⟩
            cases other
        | error =>
            refine ⟨fun waits => absurd waits (failed_ended .inner), ?_⟩
            rintro ⟨⟨⟨limit, other⟩, -⟩, -⟩
            cases other
        | ready limit =>
            obtain ⟨bytes, advanced, wf, unread, capacity⟩ :=
              writer.bytes.advanceCursor_spec flushing.wellFormed
                (min limit writer.bytes.unread.length) (Nat.min_le_right ..)
            have later := ih { writer with bytes := bytes }
              ⟨flushing.flushing, wf, capacity.trans flushing.capacity⟩
            have positive := List.length_pos_iff.mpr none
            have less : allowance events < bytes.unread.length ↔
                limit + allowance events < writer.bytes.unread.length := by
              rw [unread, List.length_drop]
              omega
            simp only [advanced]
            rw [allowance, ← less]
            exact later.trans
              ⟨fun waits => ⟨⟨⟨limit, rfl⟩, waits.1⟩, waits.2⟩, fun waits => ⟨waits.1.2, waits.2⟩⟩

/-- The poll has ended, with so many answers left. -/
structure Enough {α : Type} (count : Nat) (poll : WritePoll α) : Prop where
  ended : poll.outcome ≠ .waiting
  left : count ≤ poll.events.length

/-- Answers that come after the end are not asked for. -/
theorem flushLoop_append (events more : List WriteEvent) (writer : EncryptedWriter)
    (ended : (flushLoop events writer).outcome ≠ .waiting) :
    Enough more.length (flushLoop (events ++ more) writer) := by
  induction events generalizing writer with
  | nil =>
      rw [flushLoop] at ended
      rw [List.nil_append]
      cases data : writer.bytes.data with
      | error panic =>
          cases more with
          | nil =>
              rw [flushLoop, data]
              exact ⟨panicked_ended panic, Nat.zero_le _⟩
          | cons event more =>
              rw [flushLoop, data]
              exact ⟨panicked_ended panic, Nat.le_refl _⟩
      | ok data_ =>
          rw [data] at ended
          by_cases empty : data_.isEmpty = true
          · cases more with
            | nil =>
                rw [flushLoop, data]
                simp only [if_pos empty]
                exact ⟨ready_ended (), Nat.zero_le _⟩
            | cons event more =>
                rw [flushLoop, data]
                simp only [if_pos empty]
                exact ⟨ready_ended (), Nat.le_refl _⟩
          · simp only [if_neg empty] at ended
            exact absurd rfl ended
  | cons event events ih =>
      have longer : more.length ≤ (event :: (events ++ more)).length := by
        rw [List.length_cons, List.length_append]
        omega
      have behind : more.length ≤ (events ++ more).length := by
        rw [List.length_append]
        omega
      rw [flushLoop] at ended
      rw [List.cons_append, flushLoop]
      cases data : writer.bytes.data with
      | error panic => exact ⟨panicked_ended panic, longer⟩
      | ok data_ =>
          rw [data] at ended
          by_cases empty : data_.isEmpty = true
          · simp only [if_pos empty]
            exact ⟨ready_ended (), longer⟩
          · simp only [if_neg empty] at ended ⊢
            cases event with
            | pending => exact ⟨pending_ended, behind⟩
            | error => exact ⟨failed_ended .inner, behind⟩
            | ready limit =>
                cases advanced : writer.bytes.advanceCursor (min limit data_.length) with
                | error panic =>
                    simp only [advanced]
                    exact ⟨panicked_ended panic, behind⟩
                | ok bytes =>
                    simp only [advanced] at ended ⊢
                    have later := ih { writer with bytes := bytes } ended
                    exact ⟨later.ended, later.left⟩

theorem Enough.andThen_inner {count : Nat} {first : WritePoll Unit}
    (enough : Enough (count + 1) first) (call : InnerCall) :
    Enough count (first.andThen (pollInner call)) := by
  have left := enough.left
  rcases first.andThen_cases (pollInner call) with ⟨_, _, whole⟩ | ⟨outcome, _, same, whole⟩
  · rw [whole]
    cases events : first.events with
    | nil =>
        rw [events] at left
        exact absurd left (Nat.not_succ_le_zero count)
    | cons event events_ =>
        rw [events, List.length_cons] at left
        cases event with
        | pending => exact ⟨pending_ended, Nat.le_of_succ_le_succ left⟩
        | error => exact ⟨failed_ended .inner, Nat.le_of_succ_le_succ left⟩
        | ready limit => exact ⟨ready_ended (), Nat.le_of_succ_le_succ left⟩
  · rw [whole]
    refine ⟨?_, Nat.le_of_succ_le left⟩
    intro waits
    rw [show outcome = .waiting from waits] at same
    exact enough.ended ((Outcome.map_eq_waiting _ _).mp same.symm)

theorem andThen_waiting {α : Type} {first : WritePoll Unit}
    (rest : EncryptedWriter → List WriteEvent → WritePoll α) (waits : first.outcome = .waiting) :
    (first.andThen rest).outcome = .waiting := by
  rw [WritePoll.andThen, waits]

/-! ## Polls that drain a frame -/

/-- The poll waits with the flush loop of `writer`, and two answers more end it. -/
structure Follows {α : Type} (writer : EncryptedWriter)
    (poll : List WriteEvent → WritePoll α) : Prop where
  waits : ∀ events, (flushLoop events writer).outcome = .waiting →
    (poll events).outcome = .waiting
  ends : ∀ events, Enough 2 (flushLoop events writer) → (poll events).outcome ≠ .waiting

theorem flushThen_ended {α : Type} (aead : StreamAead) (writer : EncryptedWriter)
    (events : List WriteEvent) (rest : EncryptedWriter → WritePoll α)
    (later : ∀ next, (rest next).outcome ≠ .waiting) :
    (flushThen aead writer events rest).outcome ≠ .waiting := by
  rw [flushThen]
  cases startFlushing aead writer with
  | error panic => exact panicked_ended panic
  | ok result =>
      obtain ⟨next, verdict⟩ := result
      cases verdict with
      | error kind => exact failed_ended kind
      | ok chunk => exact later next

theorem takeBytes_ended (aead : StreamAead) (debug : Bool) (buf : List UInt8)
    (writer : EncryptedWriter) (events : List WriteEvent) :
    (takeBytes aead debug buf writer events).outcome ≠ .waiting := by
  rw [takeBytes]
  cases subUsize debug writer.bytes.spareCapacityLen ciphertextOverhead with
  | error panic => exact panicked_ended panic
  | ok room =>
      simp only
      cases slice buf 0 (min buf.length room) with
      | error panic => exact panicked_ended panic
      | ok taken =>
          simp only
          split
          · exact flushThen_ended aead _ events _ fun next => ready_ended _
          · exact ready_ended _

theorem pollFlushLocal_flushing (debug : Bool) (writer : EncryptedWriter)
    (flushing : writer.isFlushing = true) (events : List WriteEvent) :
    writer.pollFlushLocal debug events = flushLoop events writer := by
  rw [pollFlushLocal, flushing, debugAssert_true]

theorem pollWrite_follows (aead : StreamAead) (debug : Bool) (buf : List UInt8)
    (writer : EncryptedWriter) (flushing : writer.Flushing) :
    Follows writer (writer.pollWrite aead debug buf) := by
  have unfolds : ∀ events, writer.pollWrite aead debug buf events =
      (flushLoop events writer).andThen (takeBytes aead debug buf) := by
    intro events
    rw [flushing.pollWrite_eq, pollFlushLocal_flushing debug writer flushing.flushing]
  constructor
  · intro events waits
    rw [unfolds]
    exact andThen_waiting _ waits
  · intro events enough waits
    rw [unfolds] at waits
    rcases (flushLoop events writer).andThen_cases (takeBytes aead debug buf) with
      ⟨_, _, whole⟩ | ⟨outcome, _, same, whole⟩
    · rw [whole] at waits
      exact takeBytes_ended aead debug buf _ _ waits
    · rw [whole] at waits
      rw [show outcome = .waiting from waits] at same
      exact enough.ended ((Outcome.map_eq_waiting _ _).mp same.symm)

theorem flushOut_flushing (debug : Bool) (writer : EncryptedWriter)
    (flushing : writer.isFlushing = true) (events : List WriteEvent) :
    flushOut debug writer events = (flushLoop events writer).andThen (pollInner .flush) := by
  rw [flushOut, if_pos flushing, pollFlushLocal_flushing debug writer flushing]

/-- The writer whose frame a flush drains: this one, or this one with its chunk sealed. -/
theorem pollFlush_drains (aead : StreamAead) (debug : Bool) (writer : EncryptedWriter)
    (shaped : writer.Shaped)
    (going : writer.isFlushing = false → writer.encryptor.position ≠ aead.counterMax) :
    ∃ draining, draining.Flushing ∧
      draining.bytes.unread.length =
        (if writer.isFlushing then writer.bytes.unread.length else newFrame aead writer) ∧
      ∀ events, (writer.pollFlush aead debug events).outcome =
          ((flushLoop events draining).andThen (pollInner .flush)).outcome ∧
        (writer.pollFlush aead debug events).events =
          ((flushLoop events draining).andThen (pollInner .flush)).events := by
  rcases shaped with collecting | flushing
  · rcases collecting.startFlushing_cases aead with
      ⟨spent, _⟩ | ⟨next, message, run, encrypted, flushing, framed, _⟩
    · exact absurd spent (going collecting.idle)
    · obtain ⟨_, messageEq, _⟩ := (aead.encryptNextInPlace_eq_some _ _ _ _).mp encrypted
      refine ⟨next, flushing, ?_, fun events => ?_⟩
      · rw [framed, frame_length, messageEq, aead.sealAt_length, collecting.idle,
          if_neg Bool.false_ne_true, newFrame, if_neg (going collecting.idle), Nat.add_comm]
      · rw [collecting.pollFlush_eq, flushThen, run,
          ← flushOut_flushing debug next flushing.flushing]
        exact ⟨rfl, rfl⟩
  · refine ⟨writer, flushing, ?_, fun events => ?_⟩
    · rw [flushing.flushing, if_pos rfl]
    · rw [flushing.pollFlush_eq, ← flushOut_flushing debug writer flushing.flushing]
      exact ⟨rfl, rfl⟩

theorem andThen_inner_outcome (first second : WritePoll Unit) (call : InnerCall)
    (outcome : first.outcome = second.outcome) (events : first.events = second.events) :
    (first.andThen (pollInner call)).outcome = (second.andThen (pollInner call)).outcome := by
  have inner : ∀ one other : EncryptedWriter, ∀ events,
      (pollInner call one events).outcome = (pollInner call other events).outcome := by
    intro one other events
    cases events with
    | nil => rfl
    | cons event events => cases event <;> rfl
  rw [WritePoll.andThen, WritePoll.andThen, outcome]
  cases second.outcome with
  | ready value =>
      simp only [events]
      exact inner first.writer second.writer second.events
  | failed kind => rfl
  | pending => rfl
  | panicked panic => rfl
  | waiting => rfl

theorem pollFlush_follows (aead : StreamAead) (debug : Bool) (writer : EncryptedWriter)
    (shaped : writer.Shaped)
    (going : writer.isFlushing = false → writer.encryptor.position ≠ aead.counterMax) :
    ∃ draining, draining.Flushing ∧
      draining.bytes.unread.length =
        (if writer.isFlushing then writer.bytes.unread.length else newFrame aead writer) ∧
      Follows draining (writer.pollFlush aead debug) ∧
      Follows draining (writer.pollShutdown aead debug) := by
  obtain ⟨draining, flushing, length, unfolds⟩ :=
    pollFlush_drains aead debug writer shaped going
  refine ⟨draining, flushing, length, ⟨?_, ?_⟩, ⟨?_, ?_⟩⟩
  · intro events waits
    rw [(unfolds events).1]
    exact andThen_waiting _ waits
  · intro events enough
    rw [(unfolds events).1]
    exact (enough.andThen_inner .flush).ended
  · intro events waits
    apply andThen_waiting
    rw [(unfolds events).1]
    exact andThen_waiting _ waits
  · intro events enough
    rw [pollShutdown, andThen_inner_outcome _ _ .shutdown (unfolds events).1 (unfolds events).2]
    exact ((enough.andThen_inner .flush).andThen_inner .shutdown).ended

theorem firstAnswers_add_two (answers : Nat → WriteEvent) (count : Nat) :
    firstAnswers answers (count + 2) =
      firstAnswers answers count ++ [answers count, answers (count + 1)] := by
  rw [firstAnswers, List.range_succ, List.range_succ, List.map_append, List.map_append,
    List.append_assoc]
  rfl

/-- What interrupts a loop, or is enough for it, is among the first answers. -/
theorem Follows.poll_ends {α : Type} {writer : EncryptedWriter}
    {poll : List WriteEvent → WritePoll α} (follows : Follows writer poll)
    (flushing : writer.Flushing) (answers : Nat → WriteEvent) :
    (∃ count, (poll (firstAnswers answers count)).outcome ≠ .waiting) ↔
      Interrupted answers ∨
        ∃ count, writer.bytes.unread.length ≤ allowance (firstAnswers answers count) := by
  have waiting := fun count => flushLoop_waiting (firstAnswers answers count) writer flushing
  constructor
  · rintro ⟨count, ended⟩
    have going : (flushLoop (firstAnswers answers count) writer).outcome ≠ .waiting :=
      fun waits => ended (follows.waits _ waits)
    by_cases calm : ∀ event ∈ firstAnswers answers count, ∃ limit, event = .ready limit
    · right
      refine ⟨count, ?_⟩
      by_contra short
      exact going ((waiting count).mpr ⟨calm, Nat.lt_of_not_le short⟩)
    · left
      push Not at calm
      obtain ⟨event, member, other⟩ := calm
      obtain ⟨place, _, rfl⟩ := List.mem_map.mp member
      refine ⟨place, ?_⟩
      cases answer : answers place with
      | pending => exact Or.inl rfl
      | error => exact Or.inr rfl
      | ready limit => exact absurd answer (other limit)
  · intro condition
    have ended : ∃ count, (flushLoop (firstAnswers answers count) writer).outcome ≠ .waiting := by
      rcases condition with ⟨place, stops⟩ | ⟨count, enough⟩
      · refine ⟨place + 1, fun waits => ?_⟩
        have member : answers place ∈ firstAnswers answers (place + 1) :=
          List.mem_map_of_mem (List.mem_range.mpr (Nat.lt_succ_self place))
        obtain ⟨limit, ready⟩ := ((waiting _).mp waits).1 _ member
        rw [ready] at stops
        rcases stops with stops | stops
        · cases stops
        · cases stops
      · exact ⟨count, fun waits => Nat.not_lt_of_le enough ((waiting count).mp waits).2⟩
    obtain ⟨count, ended⟩ := ended
    refine ⟨count + 2, follows.ends _ ?_⟩
    rw [firstAnswers_add_two]
    exact flushLoop_append _ [answers count, answers (count + 1)] writer ended

/-! ## Polls that drain nothing -/

theorem flushThen_spent {α : Type} (aead : StreamAead) (writer : EncryptedWriter)
    (spent : writer.encryptor.position = aead.counterMax) (events : List WriteEvent)
    (rest : EncryptedWriter → WritePoll α) :
    (flushThen aead writer events rest).outcome ≠ .waiting ∧
      (flushThen aead writer events rest).events = events := by
  rw [flushThen, startFlushing]
  cases writer.bytes.buf.splitOff 4 with
  | error panic => exact ⟨panicked_ended panic, rfl⟩
  | ok halves =>
      simp only [StreamAead.encryptNextInPlace, if_pos spent]
      exact ⟨failed_ended .invalidData, rfl⟩

theorem Quiet.enough {aead : StreamAead} {writer : EncryptedWriter} (quiet : Quiet aead writer)
    (debug : Bool) (count : Nat) (events : List WriteEvent) (left : count < events.length) :
    Enough count (writer.pollFlush aead debug events) := by
  rw [EncryptedWriter.pollFlush]
  cases writer.bytes.data with
  | error panic => exact ⟨panicked_ended panic, Nat.le_of_lt left⟩
  | ok data =>
      simp only
      split
      · obtain ⟨ended, same⟩ := flushThen_spent aead writer quiet.spent events
          fun next => flushOut debug next events
        refine ⟨ended, ?_⟩
        rw [same]
        exact Nat.le_of_lt left
      · rw [flushOut, quiet.idle, if_neg Bool.false_ne_true]
        cases events with
        | nil => exact absurd left (Nat.not_lt_zero count)
        | cons event events =>
            cases event with
            | pending => exact ⟨pending_ended, Nat.le_of_lt_succ left⟩
            | error => exact ⟨failed_ended .inner, Nat.le_of_lt_succ left⟩
            | ready limit => exact ⟨ready_ended (), Nat.le_of_lt_succ left⟩

/-- A flush and a shutdown write the same bytes. -/
theorem flush_ends_iff (aead : StreamAead) (debug : Bool) (writer : EncryptedWriter)
    (either : writer.Shaped ∨ Quiet aead writer) (answers : Nat → WriteEvent) :
    ((∃ count, (writer.pollFlush aead debug (firstAnswers answers count)).outcome ≠ .waiting) ↔
      Interrupted answers ∨ ∃ count,
        (if writer.isFlushing then writer.bytes.unread.length else newFrame aead writer) ≤
          allowance (firstAnswers answers count)) ∧
    ((∃ count, (writer.pollShutdown aead debug (firstAnswers answers count)).outcome ≠
        .waiting) ↔
      Interrupted answers ∨ ∃ count,
        (if writer.isFlushing then writer.bytes.unread.length else newFrame aead writer) ≤
          allowance (firstAnswers answers count)) := by
  by_cases quiet : Quiet aead writer
  · have none : (if writer.isFlushing then writer.bytes.unread.length
        else newFrame aead writer) = 0 := by
      rw [quiet.idle, if_neg Bool.false_ne_true, newFrame, if_pos quiet.spent]
    have enough : Enough 1 (writer.pollFlush aead debug (firstAnswers answers 2)) :=
      quiet.enough debug 1 _ (Nat.lt_succ_self 1)
    rw [none]
    exact ⟨⟨fun _ => Or.inr ⟨0, Nat.zero_le _⟩, fun _ => ⟨2, enough.ended⟩⟩,
      ⟨fun _ => Or.inr ⟨0, Nat.zero_le _⟩,
        fun _ => ⟨2, (enough.andThen_inner .shutdown).ended⟩⟩⟩
  · have shaped := either.resolve_right quiet
    obtain ⟨draining, flushing, length, flush, shutdown⟩ :=
      pollFlush_follows aead debug writer shaped fun idle spent => quiet ⟨idle, spent⟩
    rw [← length]
    exact ⟨flush.poll_ends flushing answers, shutdown.poll_ends flushing answers⟩

theorem pollWrite_idle (aead : StreamAead) (debug : Bool) (buf : List UInt8)
    (writer : EncryptedWriter) (idle : writer.isFlushing = false) (events : List WriteEvent) :
    (writer.pollWrite aead debug buf events).outcome ≠ .waiting := by
  rw [pollWrite]
  cases debugAssert debug (decide (writer.bytes.buf.capacity = maxChunkSize)) with
  | error panic => exact panicked_ended panic
  | ok asserted =>
      simp only [idle, Bool.false_eq_true, if_false]
      exact takeBytes_ended aead debug buf writer events

end EncryptedWriter

/-! ## Every poll in a run -/

namespace Sending

open EncryptedWriter

/-- The poll returns after finitely many answers. -/
def Ends (aead : StreamAead) (debug : Bool) (state : Sending) (op : WriterOp)
    (answers : Nat → WriteEvent) : Prop :=
  ∃ count, (state.call aead debug (op.call (firstAnswers answers count))).1 ≠ .waiting

/-- In every state of a run, also after a failure. -/
theorem poll_ends_iff (aead : StreamAead) (debug : Bool) (sharedKey : Key) (nonce : Nonce)
    (calls : List WriterCall) (state : Sending)
    (run : runInputs (Sending.step aead debug) calls (Sending.start sharedKey nonce) = some state)
    (op : WriterOp) (answers : Nat → WriteEvent) :
    Ends aead debug state op answers ↔ Interrupted answers ∨
      ∃ count, owed aead state.writer op ≤ allowance (firstAnswers answers count) := by
  have either : state.writer.Shaped ∨ Quiet aead state.writer := by
    rcases run_healthy_or_quiet aead debug _ calls _ state
        (start_healthy aead sharedKey nonce) run with healthy | quiet
    · exact Or.inl healthy.shaped
    · exact Or.inr quiet
  cases op with
  | write buf =>
      have same : Ends aead debug state (.write buf) answers ↔ ∃ count,
          (state.writer.pollWrite aead debug buf (firstAnswers answers count)).outcome ≠
            .waiting :=
        exists_congr fun count => not_congr (Outcome.map_eq_waiting _ _)
      rw [same, owed]
      by_cases flushing : state.writer.isFlushing = true
      · rw [if_pos flushing]
        rcases either with shaped | quiet
        · have drains := shaped.flushing flushing
          exact (pollWrite_follows aead debug buf state.writer drains).poll_ends drains answers
        · rw [quiet.idle] at flushing
          cases flushing
      · rw [if_neg flushing]
        have idle := Bool.eq_false_iff.mpr flushing
        exact ⟨fun _ => Or.inr ⟨0, Nat.zero_le _⟩,
          fun _ => ⟨0, pollWrite_idle aead debug buf state.writer idle _⟩⟩
  | flush => exact (flush_ends_iff aead debug state.writer either answers).1
  | shutdown => exact (flush_ends_iff aead debug state.writer either answers).2

/-- A flush of one byte ends when its frame of 21 bytes was taken. -/
theorem oneByte_ends : Ends paddingAead true (collected [97]) .flush fun _ => .ready 21 := by
  apply (poll_ends_iff paddingAead true [] [] [.pollWrite [97] []] (collected [97]) rfl .flush
    fun _ => .ready 21).mpr
  exact Or.inr ⟨1, Nat.le_refl _⟩

theorem allowance_zero (count : Nat) : allowance (firstAnswers (fun _ => .ready 0) count) = 0 := by
  induction count with
  | zero => rfl
  | succ count ih =>
      have answers : ∀ events, allowance (events ++ [.ready 0]) = allowance events := by
        intro events
        induction events with
        | nil => rfl
        | cons event events ih => cases event <;> simp [allowance, ih]
      rw [firstAnswers, List.range_succ, List.map_append, List.map_singleton, answers]
      exact ih

/-- An inner writer that takes nothing keeps a flush of one byte going for ever. -/
theorem poll_stalls : ¬ ∀ calls state op answers,
    runInputs (Sending.step paddingAead true) calls (Sending.start [] []) = some state →
      Ends paddingAead true state op answers := by
  intro all
  obtain ⟨count, ended⟩ := all [.pollWrite [97] []] (collected [97]) .flush (fun _ => .ready 0) rfl
  obtain ⟨healthy, -⟩ := within_healthy paddingAead true _ [.pollWrite [97] []] _ (collected [97])
    (start_healthy paddingAead [] []) (Or.inl rfl)
    (.cons _ _ _ _ _ (by rw [Encrypts]; decide) rfl (.nil _))
  obtain ⟨draining, flushing, length, follows, -⟩ :=
    pollFlush_follows paddingAead true (collected [97]).writer healthy.shaped
      fun _ => by decide
  apply ended
  refine follows.waits _ ((flushLoop_waiting _ draining flushing).mpr ⟨?_, ?_⟩)
  · intro event member
    obtain ⟨place, -, rfl⟩ := List.mem_map.mp member
    exact ⟨0, rfl⟩
  · rw [allowance_zero, length]
    decide

end Sending
end Gday.Encryption
