import Gday.Encryption.Writer

/-! # What each function of the writer does

Between polls the buffer has one of two shapes: a header placeholder followed by
plaintext, or the rest of a frame that is on its way out.  The lemmas say how each
function takes one shape to the other and what it puts on the wire; an encryption
that fails is the only thing that spoils them. -/
set_option autoImplicit false
namespace Gday.Encryption

open Gday.Lib.AsyncStream Gday.Lib.BigEndian Gday.Lib.Framing

/-- The rest of the poll follows where the first part is ready; otherwise that is all of it,
and the outcome says the same of the whole. -/
theorem WritePoll.andThen_cases {α β : Type} (first : WritePoll α)
    (rest : EncryptedWriter → List WriteEvent → WritePoll β) :
    (∃ value, first.outcome = .ready value ∧ first.andThen rest =
      { rest first.writer first.events with
        calls := first.calls ++ (rest first.writer first.events).calls
        sealed := first.sealed ++ (rest first.writer first.events).sealed }) ∨
    ∃ outcome : Outcome β, (∀ value, outcome ≠ .ready value) ∧
      outcome.map (fun _ => ()) = first.outcome.map (fun _ => ()) ∧
      first.andThen rest = ⟨outcome, first.writer, first.calls, first.sealed, first.events⟩ := by
  rw [WritePoll.andThen]
  cases outcome : first.outcome with
  | ready value => exact Or.inl ⟨value, rfl, rfl⟩
  | failed kind => exact Or.inr ⟨.failed kind, by simp, rfl, rfl⟩
  | pending => exact Or.inr ⟨.pending, by simp, rfl, rfl⟩
  | panicked panic => exact Or.inr ⟨.panicked panic, by simp, rfl, rfl⟩
  | waiting => exact Or.inr ⟨.waiting, by simp, rfl, rfl⟩

/-- The plaintext that fits a chunk beside its header and its tag. -/
def maxPlain : Nat := maxChunkSize - 4 - ciphertextOverhead

namespace EncryptedWriter

/-- Plaintext is being collected behind the header placeholder. -/
structure Collecting (writer : EncryptedWriter) : Prop where
  idle : writer.isFlushing = false
  cursor : writer.bytes.cursor = 0
  placeholder : ∃ plain, writer.bytes.buf.bytes = [0, 0, 0, 0] ++ plain ∧ plain.length < maxPlain
  capacity : writer.bytes.buf.capacity = maxChunkSize

/-- A frame is on its way out. -/
structure Flushing (writer : EncryptedWriter) : Prop where
  flushing : writer.isFlushing = true
  wellFormed : writer.bytes.WellFormed
  capacity : writer.bytes.buf.capacity = maxChunkSize

def Shaped (writer : EncryptedWriter) : Prop := writer.Collecting ∨ writer.Flushing

/-- The plaintext that is buffered but not yet encrypted. -/
def buffered (writer : EncryptedWriter) : List UInt8 :=
  if writer.isFlushing then [] else writer.bytes.buf.bytes.drop 4

/-- The bytes of the frame in progress that the inner writer has not taken. -/
def pendingOut (writer : EncryptedWriter) : List UInt8 :=
  if writer.isFlushing then writer.bytes.unread else []

theorem Shaped.capacity {writer : EncryptedWriter} (shaped : writer.Shaped) :
    writer.bytes.buf.capacity = maxChunkSize := by
  rcases shaped with collecting | flushing
  · exact collecting.capacity
  · exact flushing.capacity

theorem Collecting.wellFormed {writer : EncryptedWriter} (collecting : writer.Collecting) :
    writer.bytes.WellFormed := by
  obtain ⟨plain, bytes, _⟩ := collecting.placeholder
  left
  rw [collecting.cursor, BytesMut.len, bytes]
  simp

theorem Collecting.bytes_eq {writer : EncryptedWriter} (collecting : writer.Collecting) :
    writer.bytes.buf.bytes = [0, 0, 0, 0] ++ writer.buffered ∧
      writer.buffered.length < maxPlain := by
  obtain ⟨plain, bytes, small⟩ := collecting.placeholder
  have same : writer.buffered = plain := by
    rw [buffered, collecting.idle, bytes]
    rfl
  rw [same]
  exact ⟨bytes, small⟩

theorem Collecting.spare {writer : EncryptedWriter} (collecting : writer.Collecting) :
    writer.bytes.spareCapacityLen = maxPlain - writer.buffered.length + ciphertextOverhead := by
  obtain ⟨bytes, small⟩ := collecting.bytes_eq
  rw [HelperBuf.spareCapacityLen, collecting.capacity, BytesMut.len, bytes, List.length_append]
  rw [maxPlain, maxChunkSize, ciphertextOverhead] at small ⊢
  simp only [List.length_cons, List.length_nil]
  omega

/-! ## The flush loop -/

/-- How the flush loop leaves the frame: all of it out, or a rest still to go. -/
inductive FlushCase (writer : EncryptedWriter) : WritePoll Unit → Prop where
  | done (poll : WritePoll Unit) (outcome : poll.outcome = .ready ())
      (writerEq : poll.writer.encryptor = writer.encryptor) (collecting : poll.writer.Collecting)
      (empty : poll.writer.buffered = []) (sealed : poll.sealed = [])
      (sent : sentBytes poll.calls = writer.bytes.unread) :
      FlushCase writer poll
  | held (poll : WritePoll Unit)
      (outcome : poll.outcome = .pending ∨ poll.outcome = .failed .inner ∨
        poll.outcome = .waiting)
      (writerEq : poll.writer.encryptor = writer.encryptor) (flushing : poll.writer.Flushing)
      (sealed : poll.sealed = [])
      (sent : sentBytes poll.calls ++ poll.writer.bytes.unread = writer.bytes.unread) :
      FlushCase writer poll

theorem finishFlush_collecting (writer : EncryptedWriter) (flushing : writer.Flushing)
    (none : writer.bytes.unread = []) :
    writer.finishFlush.Collecting ∧ writer.finishFlush.buffered = [] := by
  have empty := flushing.wellFormed.unread_eq_nil.mp none
  have reset : writer.bytes.cursor = 0 := by
    have bound := flushing.wellFormed.cursor_le
    rw [BytesMut.len, empty] at bound
    exact Nat.le_zero.mp bound
  have contents : writer.finishFlush.bytes.buf.bytes = [0, 0, 0, 0] ++ [] := by
    show writer.bytes.buf.bytes ++ [0, 0, 0, 0] = _
    rw [empty]
    rfl
  constructor
  · exact
      { idle := rfl
        cursor := reset
        placeholder := ⟨[], contents, by decide⟩
        capacity := by
          show max writer.bytes.buf.capacity (writer.bytes.buf.bytes ++ [0, 0, 0, 0]).length = _
          rw [flushing.capacity, empty]
          decide }
  · show writer.finishFlush.bytes.buf.bytes.drop 4 = []
    rw [contents]
    rfl

theorem FlushCase.after {writer : EncryptedWriter} {poll : WritePoll Unit}
    {taken : List UInt8} (middle : EncryptedWriter)
    (encryptor : middle.encryptor = writer.encryptor)
    (split : writer.bytes.unread = taken ++ middle.bytes.unread)
    (later : FlushCase middle poll) : FlushCase writer (poll.after (.write taken)) := by
  cases later with
  | done outcome writerEq collecting empty sealed sent =>
      refine .done _ outcome (writerEq.trans encryptor) collecting empty sealed ?_
      show taken ++ sentBytes poll.calls = _
      rw [sent, split]
  | held outcome writerEq flushing sealed sent =>
      refine .held _ outcome (writerEq.trans encryptor) flushing sealed ?_
      show (taken ++ sentBytes poll.calls) ++ poll.writer.bytes.unread = _
      rw [List.append_assoc, sent, split]

theorem flushLoop_cases (events : List WriteEvent) (writer : EncryptedWriter)
    (flushing : writer.Flushing) : FlushCase writer (flushLoop events writer) := by
  induction events generalizing writer with
  | nil =>
      rw [flushLoop, flushing.wellFormed.data_eq]
      cases unread : writer.bytes.unread with
      | nil =>
          obtain ⟨collecting, empty⟩ := finishFlush_collecting writer flushing unread
          exact .done _ rfl rfl collecting empty rfl unread.symm
      | cons byte rest =>
          exact .held _ (Or.inr (Or.inr rfl)) rfl flushing rfl rfl
  | cons event events ih =>
      rw [flushLoop, flushing.wellFormed.data_eq]
      cases unread : writer.bytes.unread with
      | nil =>
          obtain ⟨collecting, empty⟩ := finishFlush_collecting writer flushing unread
          exact .done _ rfl rfl collecting empty rfl unread.symm
      | cons byte rest =>
          simp only [List.isEmpty_cons, Bool.false_eq_true, if_false]
          cases event with
          | pending => exact .held _ (Or.inl rfl) rfl flushing rfl rfl
          | error => exact .held _ (Or.inr (Or.inl rfl)) rfl flushing rfl rfl
          | ready limit =>
              have within : min limit (byte :: rest).length ≤ writer.bytes.unread.length := by
                rw [unread]
                exact Nat.min_le_right ..
              obtain ⟨bytes, advanced, wf, unreadEq, capacity⟩ :=
                writer.bytes.advanceCursor_spec flushing.wellFormed _ within
              simp only [advanced]
              refine FlushCase.after { writer with bytes := bytes } rfl ?_
                (ih { writer with bytes := bytes } ⟨flushing.flushing, wf,
                  capacity.trans flushing.capacity⟩)
              show writer.bytes.unread = _ ++ bytes.unread
              rw [unreadEq, unread, List.take_append_drop]

theorem pollFlushLocal_cases (debug : Bool) (events : List WriteEvent) (writer : EncryptedWriter)
    (flushing : writer.Flushing) : FlushCase writer (writer.pollFlushLocal debug events) := by
  rw [pollFlushLocal, flushing.flushing, debugAssert_true]
  exact flushLoop_cases events writer flushing

/-! ## Sealing the collected chunk -/

/-- `start_flushing` on header placeholder and plaintext. -/
theorem startFlushing_spec (aead : StreamAead) (writer : EncryptedWriter) (plain : List UInt8)
    (cursor : writer.bytes.cursor = 0)
    (contents : writer.bytes.buf.bytes = [0, 0, 0, 0] ++ plain) (small : plain.length ≤ maxPlain)
    (capacity : writer.bytes.buf.capacity = maxChunkSize) :
    (writer.encryptor.position = aead.counterMax ∧
      ∃ next, startFlushing aead writer = .ok (next, .error .invalidData) ∧
        next.encryptor = writer.encryptor ∧ next.isFlushing = writer.isFlushing) ∨
    ∃ next message, startFlushing aead writer = .ok (next, .ok (plain, message)) ∧
      aead.encryptNextInPlace writer.encryptor plain = some (message, next.encryptor) ∧
        next.Flushing ∧ next.bytes.unread = frame message ∧ next.bytes.cursor = 0 := by
  have halves : writer.bytes.buf.splitOff 4 =
      .ok (⟨[0, 0, 0, 0], 4, by decide⟩,
        ⟨plain, maxChunkSize - 4, by rw [maxPlain] at small; omega⟩) := by
    rw [BytesMut.splitOff, if_pos (by rw [capacity]; decide)]
    simp [contents, capacity]
  cases encrypted : aead.encryptNextInPlace writer.encryptor plain with
  | none =>
      left
      have spent : writer.encryptor.position = aead.counterMax := by
        by_contra going
        rw [StreamAead.encryptNextInPlace, if_neg going] at encrypted
        cases encrypted
      refine ⟨spent, ?_⟩
      rw [startFlushing, halves]
      simp only [encrypted]
      exact ⟨_, rfl, rfl, rfl⟩
  | some pair =>
      right
      obtain ⟨message, encryptor⟩ := pair
      obtain ⟨_, messageEq, _⟩ :=
        (aead.encryptNextInPlace_eq_some writer.encryptor encryptor plain message).mp encrypted
      have messageLength : message.length = plain.length + ciphertextOverhead := by
        rw [messageEq, aead.sealAt_length]
      have fits : message.length ≤ maxChunkSize - 4 := by
        rw [maxPlain, ciphertextOverhead, maxChunkSize] at small
        rw [messageLength, ciphertextOverhead, maxChunkSize]
        omega
      have short : message.length < 2 ^ 32 := by
        rw [maxChunkSize] at fits
        omega
      have nonempty : toBe message.length ≠ [] := by
        intro none
        have lengths := congrArg List.length none
        simp at lengths
      have room : max (maxChunkSize - 4) message.length = maxChunkSize - 4 :=
        Nat.max_eq_left fits
      rw [startFlushing, halves]
      simp only [encrypted, if_pos short, BytesMut.len, List.length_cons, List.length_nil,
        Nat.zero_add, Nat.reduceAdd, if_true]
      refine ⟨_, message, rfl, rfl, ?_, ?_, cursor⟩
      · refine ⟨rfl, ?_, ?_⟩
        · left
          show writer.bytes.cursor < (BytesMut.unsplit _ _).bytes.length
          rw [cursor, BytesMut.unsplit]
          simp [nonempty, BytesMut.len]
        · show (BytesMut.unsplit _ _).capacity = maxChunkSize
          rw [BytesMut.unsplit]
          simp only [BytesMut.replace_bytes, BytesMut.replace_capacity, nonempty, if_false,
            BytesMut.len, toBe_length, Nat.max_self, if_true, room]
          decide
      · show (BytesMut.unsplit _ _).bytes.drop writer.bytes.cursor = _
        rw [cursor, List.drop_zero, BytesMut.unsplit]
        simp [nonempty, BytesMut.len, frame]

/-! ## The polls on the two shapes -/

theorem Collecting.unread {writer : EncryptedWriter} (collecting : writer.Collecting) :
    writer.bytes.unread = [0, 0, 0, 0] ++ writer.buffered := by
  rw [HelperBuf.unread, collecting.cursor, List.drop_zero]
  exact collecting.bytes_eq.1

theorem Collecting.subUsize_spare {writer : EncryptedWriter} (collecting : writer.Collecting)
    (debug : Bool) : subUsize debug writer.bytes.spareCapacityLen ciphertextOverhead =
      .ok (maxPlain - writer.buffered.length) := by
  have spare := collecting.spare
  rw [subUsize_of_le _ _ _ (by omega), spare, Nat.add_sub_cancel]

theorem Collecting.startFlushing_cases {writer : EncryptedWriter}
    (collecting : writer.Collecting) (aead : StreamAead) :
    (writer.encryptor.position = aead.counterMax ∧
      ∃ next, startFlushing aead writer = .ok (next, .error .invalidData) ∧
        next.encryptor = writer.encryptor ∧ next.isFlushing = writer.isFlushing) ∨
    ∃ next message, startFlushing aead writer = .ok (next, .ok (writer.buffered, message)) ∧
      aead.encryptNextInPlace writer.encryptor writer.buffered = some (message, next.encryptor) ∧
        next.Flushing ∧ next.bytes.unread = frame message ∧ next.bytes.cursor = 0 :=
  startFlushing_spec aead writer writer.buffered collecting.cursor collecting.bytes_eq.1
    (Nat.le_of_lt collecting.bytes_eq.2) collecting.capacity

/-- The placeholder counts as data, so that a flush starts a frame in any case. -/
theorem Collecting.pollFlush_eq {writer : EncryptedWriter} (collecting : writer.Collecting)
    (aead : StreamAead) (debug : Bool) (events : List WriteEvent) :
    writer.pollFlush aead debug events =
      flushThen aead writer events fun next => flushOut debug next events := by
  rw [pollFlush, collecting.wellFormed.data_eq, collecting.unread, collecting.idle]
  rfl

theorem Flushing.pollFlush_eq {writer : EncryptedWriter} (flushing : writer.Flushing)
    (aead : StreamAead) (debug : Bool) (events : List WriteEvent) :
    writer.pollFlush aead debug events = flushOut debug writer events := by
  rw [pollFlush, flushing.wellFormed.data_eq, flushing.flushing]
  rfl

theorem Collecting.pollWrite_eq {writer : EncryptedWriter} (collecting : writer.Collecting)
    (aead : StreamAead) (debug : Bool) (buf : List UInt8) (events : List WriteEvent) :
    writer.pollWrite aead debug buf events = takeBytes aead debug buf writer events := by
  rw [pollWrite, collecting.capacity, decide_eq_true rfl, debugAssert_true, collecting.idle]
  rfl

theorem Flushing.pollWrite_eq {writer : EncryptedWriter} (flushing : writer.Flushing)
    (aead : StreamAead) (debug : Bool) (buf : List UInt8) (events : List WriteEvent) :
    writer.pollWrite aead debug buf events =
      (writer.pollFlushLocal debug events).andThen (takeBytes aead debug buf) := by
  rw [pollWrite, flushing.capacity, decide_eq_true rfl, debugAssert_true, flushing.flushing]
  rfl

/-! ## What a poll emits -/

/-- A poll that goes from `before` to `after`, takes `taken` from its caller, encrypts
the chunks `sealed` and puts `sent` on the wire. -/
structure Emits (aead : StreamAead) (before : EncryptedWriter) (taken : List UInt8)
    (sealed : List (List UInt8 × List UInt8)) (sent : List UInt8) (after : EncryptedWriter) :
    Prop where
  encryptor : aead.sealChunks before.encryptor (sealed.map Prod.fst) =
    some (sealed.map Prod.snd, after.encryptor)
  wire : before.pendingOut ++ frames (sealed.map Prod.snd) = sent ++ after.pendingOut
  plain : before.buffered ++ taken = (sealed.map Prod.fst).flatten ++ after.buffered
  small : ∀ chunk ∈ sealed.map Prod.fst, chunk.length ≤ maxPlain
  shaped : after.Shaped

theorem Emits.refl (aead : StreamAead) (writer : EncryptedWriter) (shaped : writer.Shaped) :
    Emits aead writer [] [] [] writer where
  encryptor := rfl
  wire := by simp
  plain := by simp
  small := by simp
  shaped := shaped

theorem Emits.trans {aead : StreamAead} {first second third : EncryptedWriter}
    {taken later sent more : List UInt8} {sealed others : List (List UInt8 × List UInt8)}
    (left : Emits aead first taken sealed sent second)
    (right : Emits aead second later others more third) :
    Emits aead first (taken ++ later) (sealed ++ others) (sent ++ more) third where
  encryptor := by
    rw [List.map_append, List.map_append,
      aead.sealChunks_append _ _ _ _ _ left.encryptor, right.encryptor]
    rfl
  wire := by
    rw [List.map_append, frames_append, ← List.append_assoc, left.wire, List.append_assoc,
      right.wire, List.append_assoc]
  plain := by
    rw [List.map_append, List.flatten_append, ← List.append_assoc, left.plain, List.append_assoc,
      right.plain, List.append_assoc]
  small := by
    intro chunk member
    rw [List.map_append] at member
    rcases List.mem_append.mp member with member | member
    · exact left.small chunk member
    · exact right.small chunk member
  shaped := right.shaped

theorem FlushCase.emits {writer : EncryptedWriter} {poll : WritePoll Unit}
    (flushCase : FlushCase writer poll) (aead : StreamAead) (flushing : writer.Flushing) :
    Emits aead writer [] poll.sealed (sentBytes poll.calls) poll.writer := by
  have noPlain : writer.buffered = [] := by rw [buffered, flushing.flushing]; rfl
  have allPending : writer.pendingOut = writer.bytes.unread := by
    rw [pendingOut, flushing.flushing]
    rfl
  cases flushCase with
  | done outcome writerEq collecting empty sealed sent =>
      have nonePending : poll.writer.pendingOut = [] := by
        rw [pendingOut, collecting.idle]
        rfl
      exact
        { encryptor := by rw [sealed, writerEq]; rfl
          wire := by rw [sealed, sent, allPending, nonePending]; simp
          plain := by rw [sealed, noPlain, empty]; rfl
          small := by simp [sealed]
          shaped := Or.inl collecting }
  | held outcome writerEq stillFlushing sealed sent =>
      have restPending : poll.writer.pendingOut = poll.writer.bytes.unread := by
        rw [pendingOut, stillFlushing.flushing]
        rfl
      have nonePlain : poll.writer.buffered = [] := by
        rw [buffered, stillFlushing.flushing]
        rfl
      exact
        { encryptor := by rw [sealed, writerEq]; rfl
          wire := by rw [sealed, allPending, restPending, sent]; simp
          plain := by rw [sealed, noPlain, nonePlain]; rfl
          small := by simp [sealed]
          shaped := Or.inr stillFlushing }

/-- The result of a poll: it emits in order, or, where it `encrypts`, the encryption
failed for good. -/
inductive PollCase (aead : StreamAead) (encrypts : Prop) {α : Type} (writer : EncryptedWriter)
    (takenBy : Outcome α → List UInt8) (poll : WritePoll α) : Prop where
  | emits (calm : ∀ panic, poll.outcome ≠ .panicked panic)
      (run : Emits aead writer (takenBy poll.outcome) poll.sealed (sentBytes poll.calls)
        poll.writer)
  | exhausted (may : encrypts) (outcome : poll.outcome = .failed .invalidData)
      (spent : poll.writer.encryptor.position = aead.counterMax)
      (encryptor : aead.sealChunks writer.encryptor (poll.sealed.map Prod.fst) =
        some (poll.sealed.map Prod.snd, poll.writer.encryptor))
      (plain : (poll.sealed.map Prod.fst).flatten <+: writer.buffered)
      (small : ∀ chunk ∈ poll.sealed.map Prod.fst, chunk.length ≤ maxPlain)

/-- What `poll_write` took from `buf`. -/
def takenFrom (buf : List UInt8) : Outcome Nat → List UInt8
  | .ready count => buf.take count
  | _ => []

def nothingTaken {α : Type} : Outcome α → List UInt8 := fun _ => []

theorem PollCase.weaken {aead : StreamAead} {encrypts : Prop} {α : Type}
    {writer : EncryptedWriter} {takenBy : Outcome α → List UInt8} {poll : WritePoll α}
    (pollCase : PollCase aead False writer takenBy poll) :
    PollCase aead encrypts writer takenBy poll := by
  cases pollCase with
  | emits calm run => exact .emits calm run
  | exhausted may => exact may.elim

theorem PollCase.andThen {aead : StreamAead} {encrypts : Prop} {α : Type}
    {writer : EncryptedWriter}
    {takenBy : Outcome α → List UInt8} {first : WritePoll Unit}
    {rest : EncryptedWriter → List WriteEvent → WritePoll α}
    (nothing : ∀ outcome, (∀ value, outcome ≠ .ready value) → takenBy outcome = [])
    (firstCase : PollCase aead encrypts writer nothingTaken first)
    (later : first.outcome = .ready () →
      PollCase aead encrypts first.writer takenBy (rest first.writer first.events)) :
    PollCase aead encrypts writer takenBy (first.andThen rest) := by
  rw [WritePoll.andThen]
  cases firstCase with
  | emits calm run =>
      cases outcome : first.outcome with
      | ready value =>
          cases later outcome with
          | emits laterCalm laterRun =>
              refine .emits laterCalm ?_
              have whole := run.trans laterRun
              rw [← sentBytes_append] at whole
              exact whole
          | exhausted may laterOutcome spent encryptor plain small =>
              refine .exhausted may laterOutcome spent ?_ ?_ ?_
              · rw [List.map_append, List.map_append,
                  aead.sealChunks_append _ _ _ _ _ run.encryptor, encryptor]
                rfl
              · obtain ⟨more, whole⟩ := plain
                refine ⟨more, ?_⟩
                have firstPlain := run.plain
                rw [nothingTaken, List.append_nil] at firstPlain
                rw [List.map_append, List.flatten_append, List.append_assoc, whole, firstPlain]
              · intro chunk member
                rw [List.map_append] at member
                rcases List.mem_append.mp member with member | member
                · exact run.small chunk member
                · exact small chunk member
      | failed kind =>
          refine .emits (by simp) ?_
          simp only [nothing (.failed kind) (by simp)]
          exact run
      | pending =>
          refine .emits (by simp) ?_
          simp only [nothing .pending (by simp)]
          exact run
      | panicked panic => exact absurd outcome (calm panic)
      | waiting =>
          refine .emits (by simp) ?_
          simp only [nothing .waiting (by simp)]
          exact run
  | exhausted may outcome spent encryptor plain small =>
      rw [outcome]
      exact .exhausted may rfl spent encryptor plain small

/-- Sealing the collected chunk, and then the rest of the poll. -/
theorem flushThen_case (aead : StreamAead) {α : Type} (writer : EncryptedWriter)
    (plain : List UInt8) (cursor : writer.bytes.cursor = 0) (idle : writer.isFlushing = false)
    (contents : writer.bytes.buf.bytes = [0, 0, 0, 0] ++ plain) (small : plain.length ≤ maxPlain)
    (capacity : writer.bytes.buf.capacity = maxChunkSize) (events : List WriteEvent)
    (rest : EncryptedWriter → WritePoll α)
    (later : ∀ next, next.Flushing → PollCase aead False next nothingTaken (rest next)) :
    (PollCase aead True writer nothingTaken (flushThen aead writer events rest) ∧
        (flushThen aead writer events rest).outcome = .failed .invalidData ∧
        (flushThen aead writer events rest).writer.encryptor = writer.encryptor ∧
        (flushThen aead writer events rest).sealed = [] ∧
        writer.encryptor.position = aead.counterMax) ∨
      ∃ next, next.Flushing ∧
        PollCase aead False writer nothingTaken (flushThen aead writer events rest) ∧
        (flushThen aead writer events rest).outcome = (rest next).outcome ∧
        (flushThen aead writer events rest).writer = (rest next).writer := by
  rcases startFlushing_spec aead writer plain cursor contents small capacity with
    ⟨spent, next, run, encryptor, _⟩ | ⟨next, message, run, encrypted, flushing, unread, _⟩
  · rw [flushThen, run]
    refine Or.inl ⟨.exhausted trivial rfl (by rw [← spent, ← encryptor]; rfl) ?_
      List.nil_prefix (by simp [WritePoll.stop]), rfl, encryptor, rfl, spent⟩
    rw [← encryptor]
    rfl
  · rw [flushThen, run]
    refine Or.inr ⟨next, flushing, ?_, rfl, rfl⟩
    have sealing : Emits aead writer [] [(plain, message)] [] next :=
      { encryptor := by simp [StreamAead.sealChunks, encrypted]
        wire := by
          rw [pendingOut, pendingOut, idle, flushing.flushing, unread]
          simp
        plain := by
          rw [buffered, buffered, idle, flushing.flushing, contents]
          simp
        small := by
          intro chunk member
          simp only [List.map_cons, List.map_nil, List.mem_singleton] at member
          rw [member]
          exact small
        shaped := Or.inr flushing }
    cases later next flushing with
    | emits calm emits => exact .emits calm (sealing.trans emits)
    | exhausted may => exact may.elim

theorem Emits.of_appended {aead : StreamAead} {writer after : EncryptedWriter}
    {taken sent : List UInt8} {sealed : List (List UInt8 × List UInt8)} (next : EncryptedWriter)
    (encryptor : next.encryptor = writer.encryptor)
    (pending : next.pendingOut = writer.pendingOut)
    (plain : next.buffered = writer.buffered ++ taken)
    (run : Emits aead next [] sealed sent after) : Emits aead writer taken sealed sent after where
  encryptor := by rw [← encryptor]; exact run.encryptor
  wire := by rw [← pending]; exact run.wire
  plain := by
    have whole := run.plain
    rw [plain, List.append_nil] at whole
    exact whole
  small := run.small
  shaped := run.shaped

/-- The collecting writer with `taken` behind its plaintext. -/
theorem append_taken (writer : EncryptedWriter) (collecting : writer.Collecting)
    (taken : List UInt8) (fits : writer.buffered.length + taken.length ≤ maxPlain) :
    (writer.bytes.append taken).buf.bytes = [0, 0, 0, 0] ++ (writer.buffered ++ taken) ∧
      (writer.bytes.append taken).buf.capacity = maxChunkSize ∧
        (writer.bytes.append taken).spareCapacityLen =
          maxPlain - (writer.buffered.length + taken.length) + ciphertextOverhead := by
  obtain ⟨contents, small⟩ := collecting.bytes_eq
  have spare := collecting.spare
  have room : taken.length ≤ writer.bytes.spareCapacityLen := by omega
  have capacity := (writer.bytes.append_capacity taken room).trans collecting.capacity
  have bytes : (writer.bytes.append taken).buf.bytes =
      [0, 0, 0, 0] ++ (writer.buffered ++ taken) := by
    show writer.bytes.buf.bytes ++ taken = _
    rw [← List.append_assoc, ← contents]
  refine ⟨bytes, capacity, ?_⟩
  rw [HelperBuf.spareCapacityLen, capacity, BytesMut.len, bytes, List.length_append,
    List.length_append]
  rw [maxPlain, maxChunkSize, ciphertextOverhead] at fits ⊢
  simp only [List.length_cons, List.length_nil]
  omega

theorem takeBytes_case (aead : StreamAead) (debug : Bool) (buf : List UInt8)
    (writer : EncryptedWriter) (collecting : writer.Collecting) (events : List WriteEvent) :
    PollCase aead True writer (takenFrom buf) (takeBytes aead debug buf writer events) := by
  have small := collecting.bytes_eq.2
  have spare := collecting.spare
  have within : min buf.length (maxPlain - writer.buffered.length) ≤ buf.length :=
    Nat.min_le_left ..
  rw [takeBytes, collecting.subUsize_spare debug]
  simp only [slice_take _ _ within]
  have takenLength : (buf.take (min buf.length (maxPlain - writer.buffered.length))).length =
      min buf.length (maxPlain - writer.buffered.length) := by
    rw [List.length_take]
    omega
  have fits : writer.buffered.length +
      (buf.take (min buf.length (maxPlain - writer.buffered.length))).length ≤ maxPlain := by
    omega
  generalize min buf.length (maxPlain - writer.buffered.length) = count at fits ⊢
  obtain ⟨contents, capacity, nextSpare⟩ :=
    append_taken writer collecting (buf.take count) fits
  have plainEq : ({ writer with bytes := writer.bytes.append (buf.take count) } :
      EncryptedWriter).buffered = writer.buffered ++ buf.take count := by
    rw [buffered, collecting.idle]
    simp only [Bool.false_eq_true, if_false, contents]
    rfl
  have pendingEq : ({ writer with bytes := writer.bytes.append (buf.take count) } :
      EncryptedWriter).pendingOut = writer.pendingOut := by
    rw [pendingOut, pendingOut, collecting.idle]
    rfl
  by_cases full : writer.buffered.length + (buf.take count).length = maxPlain
  · rw [if_pos (by rw [nextSpare, full]; omega)]
    have plainLength : (writer.buffered ++ buf.take count).length ≤ maxPlain := by
      rw [List.length_append]
      exact fits
    have stop : ∀ final : EncryptedWriter, final.Flushing →
        PollCase aead False final nothingTaken (WritePoll.stop (.ready count) final events) := by
      intro final flushing
      exact .emits (by simp [WritePoll.stop]) (Emits.refl aead final (Or.inr flushing))
    rcases flushThen_case aead { writer with bytes := writer.bytes.append (buf.take count) }
        (writer.buffered ++ buf.take count) collecting.cursor collecting.idle contents plainLength
        capacity events (fun final => .stop (.ready count) final events) stop with
      ⟨_, outcome, encryptor, sealed, spent⟩ | ⟨final, flushing, sealing, outcome, _⟩
    · refine .exhausted trivial outcome (by rw [encryptor]; exact spent) ?_ ?_ ?_
      · rw [sealed, encryptor]
        rfl
      · rw [sealed]
        exact List.nil_prefix
      · simp [sealed]
    · cases sealing with
      | exhausted may => exact may.elim
      | emits calm run =>
          refine .emits calm ?_
          rw [outcome]
          exact Emits.of_appended
            { writer with bytes := writer.bytes.append (buf.take count) } rfl pendingEq plainEq run
  · rw [if_neg (by rw [nextSpare]; omega)]
    refine .emits (by simp [WritePoll.stop]) ?_
    have stillCollecting : ({ writer with bytes := writer.bytes.append (buf.take count) } :
        EncryptedWriter).Collecting :=
      { idle := collecting.idle
        cursor := collecting.cursor
        placeholder := ⟨writer.buffered ++ buf.take count, contents, by
          rw [List.length_append]
          omega⟩
        capacity := capacity }
    exact Emits.of_appended
      { writer with bytes := writer.bytes.append (buf.take count) } rfl pendingEq plainEq
      (Emits.refl aead _ (Or.inl stillCollecting))

theorem pollFlushLocal_case (aead : StreamAead) (debug : Bool) (writer : EncryptedWriter)
    (flushing : writer.Flushing) (events : List WriteEvent) :
    PollCase aead False writer nothingTaken (writer.pollFlushLocal debug events) ∧
      ((writer.pollFlushLocal debug events).outcome = .ready () →
        (writer.pollFlushLocal debug events).writer.Collecting ∧
          (writer.pollFlushLocal debug events).writer.buffered = []) := by
  have flushCase := pollFlushLocal_cases debug events writer flushing
  have run := flushCase.emits aead flushing
  generalize writer.pollFlushLocal debug events = poll at flushCase run ⊢
  cases flushCase with
  | done outcome writerEq collecting empty sealed sent =>
      refine ⟨.emits ?_ run, fun _ => ⟨collecting, empty⟩⟩
      intro panic
      rw [outcome]
      simp
  | held outcome writerEq stillFlushing sealed sent =>
      refine ⟨.emits ?_ run, ?_⟩
      · intro panic
        rcases outcome with outcome | outcome | outcome <;> rw [outcome] <;> simp
      · intro ready
        rcases outcome with outcome | outcome | outcome <;> rw [outcome] at ready <;> cases ready

theorem pollWrite_case (aead : StreamAead) (debug : Bool) (buf : List UInt8)
    (writer : EncryptedWriter) (shaped : writer.Shaped) (events : List WriteEvent) :
    PollCase aead True writer (takenFrom buf) (writer.pollWrite aead debug buf events) := by
  rcases shaped with collecting | flushing
  · rw [collecting.pollWrite_eq]
    exact takeBytes_case aead debug buf writer collecting events
  · rw [flushing.pollWrite_eq]
    obtain ⟨first, collected⟩ := pollFlushLocal_case aead debug writer flushing events
    refine PollCase.andThen ?_ first.weaken ?_
    · intro outcome notReady
      cases outcome with
      | ready value => exact absurd rfl (notReady value)
      | failed kind => rfl
      | pending => rfl
      | panicked panic => rfl
      | waiting => rfl
    · intro ready
      exact takeBytes_case aead debug buf _ (collected ready).1 _

theorem pollInner_case (aead : StreamAead) (call : InnerCall) (noBytes : sentBytes [call] = [])
    (writer : EncryptedWriter) (shaped : writer.Shaped) (events : List WriteEvent) :
    PollCase aead False writer nothingTaken (pollInner call writer events) ∧
      (pollInner call writer events).writer = writer := by
  have stay := Emits.refl aead writer shaped
  have called : Emits aead writer [] [] (sentBytes [call]) writer := by
    rw [noBytes]
    exact stay
  cases events with
  | nil => exact ⟨.emits (by simp [pollInner, WritePoll.stop]) stay, rfl⟩
  | cons event events =>
      cases event with
      | pending => exact ⟨.emits (by simp [pollInner]) called, rfl⟩
      | error => exact ⟨.emits (by simp [pollInner]) called, rfl⟩
      | ready limit => exact ⟨.emits (by simp [pollInner]) called, rfl⟩

theorem flushOut_case (aead : StreamAead) (debug : Bool) (writer : EncryptedWriter)
    (flushing : writer.Flushing) (events : List WriteEvent) :
    PollCase aead False writer nothingTaken (flushOut debug writer events) ∧
      ((flushOut debug writer events).outcome = .ready () →
        (flushOut debug writer events).writer.Collecting ∧
          (flushOut debug writer events).writer.buffered = []) := by
  rw [flushOut, flushing.flushing, if_pos rfl]
  obtain ⟨first, collected⟩ := pollFlushLocal_case aead debug writer flushing events
  constructor
  · refine PollCase.andThen (fun _ _ => rfl) first ?_
    intro ready
    exact (pollInner_case aead .flush rfl _ (Or.inl (collected ready).1) _).1
  · rw [WritePoll.andThen]
    cases outcome : (writer.pollFlushLocal debug events).outcome with
    | ready value =>
        intro _
        have same := (pollInner_case aead .flush rfl _ (Or.inl (collected outcome).1)
          (writer.pollFlushLocal debug events).events).2
        simp only [same]
        exact collected outcome
    | failed kind => intro ready; cases ready
    | pending => intro ready; cases ready
    | panicked panic => intro ready; cases ready
    | waiting => intro ready; cases ready

/-- A flush emits in order; once it is ready nothing is buffered any more. -/
theorem pollFlush_case (aead : StreamAead) (debug : Bool) (writer : EncryptedWriter)
    (shaped : writer.Shaped) (events : List WriteEvent) :
    PollCase aead True writer nothingTaken (writer.pollFlush aead debug events) ∧
      ((writer.pollFlush aead debug events).outcome = .ready () →
        (writer.pollFlush aead debug events).writer.Collecting ∧
          (writer.pollFlush aead debug events).writer.buffered = []) := by
  rcases shaped with collecting | flushing
  · obtain ⟨contents, small⟩ := collecting.bytes_eq
    rw [collecting.pollFlush_eq]
    rcases flushThen_case aead writer writer.buffered collecting.cursor
        collecting.idle contents (Nat.le_of_lt small) collecting.capacity events
        (fun next => flushOut debug next events)
        (fun next flushing => (flushOut_case aead debug next flushing events).1) with
      ⟨sealing, failed, _⟩ | ⟨next, flushing, sealing, outcome, writerEq⟩
    · refine ⟨sealing, ?_⟩
      intro ready
      rw [failed] at ready
      cases ready
    · refine ⟨sealing.weaken, ?_⟩
      intro ready
      rw [writerEq]
      rw [outcome] at ready
      exact (flushOut_case aead debug next flushing events).2 ready
  · rw [flushing.pollFlush_eq]
    obtain ⟨flushCase, ready⟩ := flushOut_case aead debug writer flushing events
    exact ⟨flushCase.weaken, ready⟩

theorem pollShutdown_case (aead : StreamAead) (debug : Bool) (writer : EncryptedWriter)
    (shaped : writer.Shaped) (events : List WriteEvent) :
    PollCase aead True writer nothingTaken (writer.pollShutdown aead debug events) := by
  obtain ⟨first, collected⟩ := pollFlush_case aead debug writer shaped events
  refine PollCase.andThen (fun _ _ => rfl) first ?_
  intro ready
  exact (pollInner_case aead .shutdown rfl _ (Or.inl (collected ready).1) _).1.weaken

/-! ## The loop in any state -/

/-- The rule of the loop, also where the buffer is not what it should be: what holds wherever
it stops, and of a write if of what follows it, holds of the whole. -/
theorem flushLoop_rule (holds : EncryptedWriter → WritePoll Unit → Prop)
    (stopped : ∀ (writer : EncryptedWriter) (outcome : Outcome Unit) (events : List WriteEvent),
      outcome ≠ .ready () → outcome ≠ .failed .invalidData →
        holds writer (.stop outcome writer events))
    (finished : ∀ (writer : EncryptedWriter) (events : List WriteEvent),
      holds writer (.stop (.ready ()) writer.finishFlush events))
    (written : ∀ (writer : EncryptedWriter) (bytes : HelperBuf) (chunk : List UInt8)
      (poll : WritePoll Unit), holds { writer with bytes := bytes } poll →
        holds writer (poll.after (.write chunk)))
    (events : List WriteEvent) (writer : EncryptedWriter) :
    holds writer (flushLoop events writer) := by
  induction events generalizing writer with
  | nil =>
      rw [flushLoop]
      cases writer.bytes.data with
      | error panic => exact stopped _ _ _ (by simp) (by simp)
      | ok data =>
          by_cases empty : data.isEmpty = true
          · simp only [if_pos empty]
            exact finished writer []
          · simp only [if_neg empty]
            exact stopped _ _ _ (by simp) (by simp)
  | cons event events ih =>
      rw [flushLoop]
      cases writer.bytes.data with
      | error panic => exact stopped _ _ _ (by simp) (by simp)
      | ok data =>
          by_cases empty : data.isEmpty = true
          · simp only [if_pos empty]
            exact finished writer _
          · simp only [if_neg empty]
            cases event with
            | pending => exact stopped _ _ _ (by simp) (by simp)
            | error => exact stopped _ _ _ (by simp) (by simp)
            | ready limit =>
                cases advanced : writer.bytes.advanceCursor (min limit data.length) with
                | error panic =>
                    simp only [advanced]
                    exact stopped _ _ _ (by simp) (by simp)
                | ok bytes =>
                    simp only [advanced]
                    exact written writer bytes _ _ (ih { writer with bytes := bytes })

/-! ## A writer whose encryptor is used up -/

/-- The poll encrypted nothing. -/
structure Keeps {α : Type} (writer : EncryptedWriter) (poll : WritePoll α) : Prop where
  sealed : poll.sealed = []
  encryptor : poll.writer.encryptor = writer.encryptor

theorem Keeps.andThen {α β : Type} {writer : EncryptedWriter} {first : WritePoll α}
    {rest : EncryptedWriter → List WriteEvent → WritePoll β} (keeps : Keeps writer first)
    (later : Keeps first.writer (rest first.writer first.events)) :
    Keeps writer (first.andThen rest) := by
  rcases first.andThen_cases rest with ⟨_, _, whole⟩ | ⟨_, _, _, whole⟩
  · rw [whole]
    exact ⟨by simp [keeps.sealed, later.sealed], later.encryptor.trans keeps.encryptor⟩
  · rw [whole]
    exact ⟨keeps.sealed, keeps.encryptor⟩

theorem flushLoop_keeps (events : List WriteEvent) (writer : EncryptedWriter) :
    Keeps writer (flushLoop events writer) := by
  refine flushLoop_rule Keeps ?_ ?_ ?_ events writer
  · intro writer outcome events _ _
    exact ⟨rfl, rfl⟩
  · intro writer events
    exact ⟨rfl, rfl⟩
  · intro writer bytes chunk poll later
    exact ⟨later.sealed, later.encryptor⟩

theorem pollFlushLocal_keeps (debug : Bool) (writer : EncryptedWriter)
    (events : List WriteEvent) : Keeps writer (writer.pollFlushLocal debug events) := by
  rw [pollFlushLocal]
  cases debugAssert debug writer.isFlushing with
  | error panic => exact ⟨rfl, rfl⟩
  | ok asserted => exact flushLoop_keeps events writer

theorem flushThen_keeps (aead : StreamAead) {α : Type} (writer : EncryptedWriter)
    (spent : writer.encryptor.position = aead.counterMax) (events : List WriteEvent)
    (rest : EncryptedWriter → WritePoll α) :
    Keeps writer (flushThen aead writer events rest) := by
  rw [flushThen, startFlushing]
  cases writer.bytes.buf.splitOff 4 with
  | error panic => exact ⟨rfl, rfl⟩
  | ok halves =>
      simp only [StreamAead.encryptNextInPlace, if_pos spent]
      exact ⟨rfl, rfl⟩

theorem takeBytes_keeps (aead : StreamAead) (debug : Bool) (buf : List UInt8)
    (writer : EncryptedWriter) (spent : writer.encryptor.position = aead.counterMax)
    (events : List WriteEvent) : Keeps writer (takeBytes aead debug buf writer events) := by
  rw [takeBytes]
  cases subUsize debug writer.bytes.spareCapacityLen ciphertextOverhead with
  | error panic => exact ⟨rfl, rfl⟩
  | ok room =>
      simp only
      cases slice buf 0 (min buf.length room) with
      | error panic => exact ⟨rfl, rfl⟩
      | ok taken =>
          simp only
          by_cases full : (writer.bytes.append taken).spareCapacityLen = ciphertextOverhead
          · simp only [if_pos full]
            have keeps := flushThen_keeps aead { writer with bytes := writer.bytes.append taken }
              spent events (fun final => WritePoll.stop (.ready (min buf.length room)) final events)
            exact ⟨keeps.sealed, keeps.encryptor⟩
          · simp only [if_neg full]
            exact ⟨rfl, rfl⟩

theorem pollWrite_keeps (aead : StreamAead) (debug : Bool) (buf : List UInt8)
    (writer : EncryptedWriter) (spent : writer.encryptor.position = aead.counterMax)
    (events : List WriteEvent) : Keeps writer (writer.pollWrite aead debug buf events) := by
  rw [pollWrite]
  cases debugAssert debug (decide (writer.bytes.buf.capacity = maxChunkSize)) with
  | error panic => exact ⟨rfl, rfl⟩
  | ok asserted =>
      cases flushing : writer.isFlushing with
      | false => exact takeBytes_keeps aead debug buf writer spent events
      | true =>
          have first := pollFlushLocal_keeps debug writer events
          exact first.andThen
            (takeBytes_keeps aead debug buf _ (by rw [first.encryptor]; exact spent) _)

theorem pollInner_keeps (call : InnerCall) (writer : EncryptedWriter)
    (events : List WriteEvent) : Keeps writer (pollInner call writer events) := by
  cases events with
  | nil => exact ⟨rfl, rfl⟩
  | cons event events => cases event <;> exact ⟨rfl, rfl⟩

theorem flushOut_keeps (debug : Bool) (writer : EncryptedWriter) (events : List WriteEvent) :
    Keeps writer (flushOut debug writer events) := by
  rw [flushOut]
  cases writer.isFlushing with
  | false => exact pollInner_keeps .flush writer events
  | true =>
      exact (pollFlushLocal_keeps debug writer events).andThen (pollInner_keeps .flush _ _)

theorem pollFlush_keeps (aead : StreamAead) (debug : Bool) (writer : EncryptedWriter)
    (spent : writer.encryptor.position = aead.counterMax) (events : List WriteEvent) :
    Keeps writer (writer.pollFlush aead debug events) := by
  rw [pollFlush]
  cases writer.bytes.data with
  | error panic => exact ⟨rfl, rfl⟩
  | ok data =>
      by_cases starts : (!writer.isFlushing && !data.isEmpty) = true
      · simp only [if_pos starts]
        exact flushThen_keeps aead writer spent events fun next => flushOut debug next events
      · simp only [if_neg starts]
        exact flushOut_keeps debug writer events

theorem pollShutdown_keeps (aead : StreamAead) (debug : Bool) (writer : EncryptedWriter)
    (spent : writer.encryptor.position = aead.counterMax) (events : List WriteEvent) :
    Keeps writer (writer.pollShutdown aead debug events) :=
  (pollFlush_keeps aead debug writer spent events).andThen (pollInner_keeps .shutdown _ _)

end EncryptedWriter
end Gday.Encryption
