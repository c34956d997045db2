import Gday.Encryption.EmptyFrame

/-! # The buffer of the writer

Between calls a healthy writer holds its whole capacity, and in it either a header
placeholder with plaintext and room for more, or the rest of one frame.  Every unchecked
subtraction and copy of writer.rs rests on that. -/
set_option autoImplicit false
namespace Gday.Encryption

open Gday.Lib.AsyncStream Gday.Lib.Framing Gday.Lib.Machine

namespace EncryptedWriter

/-- What a poll leaves of the frame on its way out, or of the one that it made itself. -/
inductive Leaves {α : Type} (writer : EncryptedWriter) (poll : WritePoll α) : Prop where
  | same (sealed : poll.sealed = []) (rest : poll.writer.pendingOut <:+ writer.pendingOut)
  | made (chunk : List UInt8 × List UInt8) (sealed : poll.sealed = [chunk])
      (rest : poll.writer.pendingOut <:+ frame chunk.2)

theorem pendingOut_idle (writer : EncryptedWriter) (idle : writer.isFlushing = false) :
    writer.pendingOut = [] := by
  rw [pendingOut, idle]
  rfl

theorem pendingOut_flushing (writer : EncryptedWriter) (flushing : writer.isFlushing = true) :
    writer.pendingOut = writer.bytes.unread := by
  rw [pendingOut, flushing]
  rfl

theorem Leaves.idle {α : Type} (writer : EncryptedWriter) (poll : WritePoll α)
    (sealed : poll.sealed = []) (idle : poll.writer.isFlushing = false) : Leaves writer poll := by
  refine .same sealed ?_
  rw [pendingOut_idle _ idle]
  exact List.nil_suffix

theorem Leaves.of_idle {α : Type} {writer : EncryptedWriter} {poll : WritePoll α}
    (idle : writer.isFlushing = false) (other : EncryptedWriter)
    (otherIdle : other.isFlushing = false) (leaves : Leaves other poll) : Leaves writer poll := by
  have same := (pendingOut_idle other otherIdle).trans (pendingOut_idle writer idle).symm
  cases leaves with
  | same sealed rest => exact .same sealed (same ▸ rest)
  | made chunk sealed rest => exact .made chunk sealed rest

theorem pollFlushLocal_leaves (debug : Bool) (writer : EncryptedWriter)
    (flushing : writer.Flushing) (events : List WriteEvent) :
    (writer.pollFlushLocal debug events).sealed = [] ∧
      (writer.pollFlushLocal debug events).writer.pendingOut <:+ writer.pendingOut := by
  rw [pendingOut_flushing writer flushing.flushing]
  cases pollFlushLocal_cases debug events writer flushing with
  | done outcome writerEq collecting empty sealed sent =>
      rw [pendingOut_idle _ collecting.idle]
      exact ⟨sealed, List.nil_suffix⟩
  | held outcome writerEq stillFlushing sealed sent =>
      rw [pendingOut_flushing _ stillFlushing.flushing]
      exact ⟨sealed, ⟨_, sent⟩⟩

theorem pollInner_writer (call : InnerCall) (writer : EncryptedWriter)
    (events : List WriteEvent) : (pollInner call writer events).writer = writer := by
  cases events with
  | nil => rfl
  | cons event events => cases event <;> rfl

/-- The inner writer's own flush and shutdown leave the buffer alone. -/
theorem Leaves.andThen_inner {writer : EncryptedWriter} {first : WritePoll Unit}
    (leaves : Leaves writer first) (call : InnerCall) :
    Leaves writer (first.andThen (pollInner call)) := by
  have kept : (first.andThen (pollInner call)).writer = first.writer ∧
      (first.andThen (pollInner call)).sealed = first.sealed := by
    rcases first.andThen_cases (pollInner call) with ⟨_, _, whole⟩ | ⟨_, _, _, whole⟩
    · have none := (pollInner_keeps call first.writer first.events).sealed
      rw [whole]
      exact ⟨pollInner_writer call first.writer first.events, by rw [none, List.append_nil]⟩
    · rw [whole]
      exact ⟨rfl, rfl⟩
  cases leaves with
  | same sealed rest => exact .same (kept.2.trans sealed) (kept.1 ▸ rest)
  | made chunk sealed rest => exact .made chunk (kept.2.trans sealed) (kept.1 ▸ rest)

theorem Leaves.andThen {α : Type} {writer : EncryptedWriter} {first : WritePoll Unit}
    {rest : EncryptedWriter → List WriteEvent → WritePoll α} (sealed : first.sealed = [])
    (kept : first.writer.pendingOut <:+ writer.pendingOut)
    (later : first.outcome = .ready () →
      Leaves first.writer (rest first.writer first.events)) :
    Leaves writer (first.andThen rest) := by
  rcases first.andThen_cases rest with ⟨_, ready, whole⟩ | ⟨_, _, _, whole⟩
  · rw [whole]
    cases later ready with
    | same others suffix =>
        exact .same (by simp only [sealed, others, List.append_nil]) (suffix.trans kept)
    | made chunk others suffix =>
        exact .made chunk (by simp only [sealed, others, List.nil_append]) suffix
  · rw [whole]
    exact .same sealed kept

theorem flushThen_leaves (aead : StreamAead) {α : Type} (writer : EncryptedWriter)
    (plain : List UInt8) (cursor : writer.bytes.cursor = 0) (idle : writer.isFlushing = false)
    (contents : writer.bytes.buf.bytes = [0, 0, 0, 0] ++ plain) (small : plain.length ≤ maxPlain)
    (capacity : writer.bytes.buf.capacity = maxChunkSize) (events : List WriteEvent)
    (rest : EncryptedWriter → WritePoll α)
    (later : ∀ next, next.Flushing → (rest next).sealed = [] ∧
      (rest next).writer.pendingOut <:+ next.pendingOut) :
    Leaves writer (flushThen aead writer events rest) := by
  rcases startFlushing_spec aead writer plain cursor contents small capacity with
    ⟨_, next, run, _, stays⟩ | ⟨next, message, run, _, flushing, unread, _⟩
  · rw [flushThen, run]
    exact .idle writer _ rfl (stays.trans idle)
  · rw [flushThen, run]
    obtain ⟨sealed, suffix⟩ := later next flushing
    rw [pendingOut_flushing next flushing.flushing, unread] at suffix
    exact .made (plain, message) (by simp only [sealed]) suffix

theorem takeBytes_leaves (aead : StreamAead) (debug : Bool) (buf : List UInt8)
    (writer : EncryptedWriter) (collecting : writer.Collecting) (events : List WriteEvent) :
    Leaves writer (takeBytes aead debug buf writer events) := by
  have small := collecting.bytes_eq.2
  have fits : writer.buffered.length +
      (buf.take (min buf.length (maxPlain - writer.buffered.length))).length ≤ maxPlain := by
    rw [List.length_take]
    omega
  rw [takeBytes, collecting.subUsize_spare debug]
  simp only [slice_take _ _ (Nat.min_le_left buf.length _)]
  generalize min buf.length (maxPlain - writer.buffered.length) = count at fits ⊢
  obtain ⟨contents, capacity, _⟩ := append_taken writer collecting (buf.take count) fits
  split
  · refine Leaves.of_idle collecting.idle
      { writer with bytes := writer.bytes.append (buf.take count) } collecting.idle ?_
    refine flushThen_leaves aead { writer with bytes := writer.bytes.append (buf.take count) } _
      collecting.cursor collecting.idle contents ?_ capacity events _ ?_
    · rw [List.length_append]
      exact fits
    · exact fun next flushing => ⟨rfl, List.suffix_refl _⟩
  · exact .idle writer _ rfl collecting.idle

theorem pollWrite_leaves (aead : StreamAead) (debug : Bool) (buf : List UInt8)
    (writer : EncryptedWriter) (shaped : writer.Shaped) (events : List WriteEvent) :
    Leaves writer (writer.pollWrite aead debug buf events) := by
  rcases shaped with collecting | flushing
  · rw [collecting.pollWrite_eq]
    exact takeBytes_leaves aead debug buf writer collecting events
  · rw [flushing.pollWrite_eq]
    obtain ⟨sealed, kept⟩ := pollFlushLocal_leaves debug writer flushing events
    refine Leaves.andThen sealed kept ?_
    intro ready
    have collected := (pollFlushLocal_case aead debug writer flushing events).2 ready
    exact takeBytes_leaves aead debug buf _ collected.1 _

theorem flushOut_leaves (debug : Bool) (writer : EncryptedWriter) (flushing : writer.Flushing)
    (events : List WriteEvent) :
    (flushOut debug writer events).sealed = [] ∧
      (flushOut debug writer events).writer.pendingOut <:+ writer.pendingOut := by
  obtain ⟨sealed, kept⟩ := pollFlushLocal_leaves debug writer flushing events
  rw [flushOut, if_pos flushing.flushing]
  cases Leaves.andThen_inner (.same sealed kept) .flush with
  | same sealed rest => exact ⟨sealed, rest⟩
  | made chunk sealed rest =>
      have none := (flushOut_keeps debug writer events).sealed
      rw [flushOut, if_pos flushing.flushing, sealed] at none
      cases none

theorem pollFlush_leaves (aead : StreamAead) (debug : Bool) (writer : EncryptedWriter)
    (shaped : writer.Shaped) (events : List WriteEvent) :
    Leaves writer (writer.pollFlush aead debug events) := by
  rcases shaped with collecting | flushing
  · obtain ⟨contents, small⟩ := collecting.bytes_eq
    rw [collecting.pollFlush_eq]
    exact flushThen_leaves aead writer writer.buffered collecting.cursor collecting.idle contents
      (Nat.le_of_lt small) collecting.capacity events _
      fun next flushing => flushOut_leaves debug next flushing events
  · rw [flushing.pollFlush_eq]
    obtain ⟨sealed, kept⟩ := flushOut_leaves debug writer flushing events
    exact .same sealed kept

theorem pollShutdown_leaves (aead : StreamAead) (debug : Bool) (writer : EncryptedWriter)
    (shaped : writer.Shaped) (events : List WriteEvent) :
    Leaves writer (writer.pollShutdown aead debug events) :=
  (pollFlush_leaves aead debug writer shaped events).andThen_inner .shutdown

/-! ## What one call relies on -/

/-- The writers whose room `poll_write` computes. -/
inductive Taking (debug : Bool) (writer : EncryptedWriter) : EncryptedWriter → Prop where
  | idle (idle : writer.isFlushing = false) : Taking debug writer writer
  | flushed (events : List WriteEvent) (flushing : writer.isFlushing = true)
      (ready : (writer.pollFlushLocal debug events).outcome = .ready ()) :
      Taking debug writer (writer.pollFlushLocal debug events).writer

theorem Collecting.room {writer : EncryptedWriter} (collecting : writer.Collecting) :
    ciphertextOverhead < writer.bytes.spareCapacityLen := by
  have small := collecting.bytes_eq.2
  rw [collecting.spare]
  omega

theorem Shaped.collecting {writer : EncryptedWriter} (shaped : writer.Shaped)
    (idle : writer.isFlushing = false) : writer.Collecting := by
  rcases shaped with collecting | flushing
  · exact collecting
  · rw [flushing.flushing] at idle
    cases idle

theorem Shaped.flushing {writer : EncryptedWriter} (shaped : writer.Shaped)
    (flushing : writer.isFlushing = true) : writer.Flushing := by
  rcases shaped with collecting | stillFlushing
  · rw [collecting.idle] at flushing
    cases flushing
  · exact stillFlushing

theorem Taking.room {debug : Bool} {writer taking : EncryptedWriter}
    (taken : Taking debug writer taking) (aead : StreamAead) (shaped : writer.Shaped) :
    ciphertextOverhead < taking.bytes.spareCapacityLen := by
  cases taken with
  | idle idle => exact (shaped.collecting idle).room
  | flushed events flushing ready =>
      exact ((pollFlushLocal_case aead debug writer (shaped.flushing flushing) events).2
        ready).1.room

theorem takeBytes_positive (aead : StreamAead) (debug : Bool) (buf : List UInt8)
    (some_ : buf ≠ []) (writer : EncryptedWriter)
    (room : ciphertextOverhead < writer.bytes.spareCapacityLen) (events : List WriteEvent) :
    (takeBytes aead debug buf writer events).outcome ≠ .ready 0 := by
  have positive := List.length_pos_iff.mpr some_
  rw [takeBytes, subUsize_of_le _ _ _ (Nat.le_of_lt room)]
  simp only [slice_take _ _ (Nat.min_le_left buf.length _)]
  have count : min buf.length (writer.bytes.spareCapacityLen - ciphertextOverhead) ≠ 0 := by
    omega
  split
  · rw [flushThen]
    intro zero
    cases flushed : startFlushing aead { writer with bytes := writer.bytes.append _ } with
    | error panic =>
        rw [flushed] at zero
        cases zero
    | ok result =>
        obtain ⟨next, verdict⟩ := result
        rw [flushed] at zero
        cases verdict with
        | error kind => cases zero
        | ok chunk => exact count (Outcome.ready.inj zero)
  · intro zero
    exact count (Outcome.ready.inj zero)

theorem pollWrite_positive (aead : StreamAead) (debug : Bool) (buf : List UInt8)
    (some_ : buf ≠ []) (writer : EncryptedWriter) (shaped : writer.Shaped)
    (events : List WriteEvent) :
    (writer.pollWrite aead debug buf events).outcome ≠ .ready 0 := by
  rcases shaped with collecting | flushing
  · rw [collecting.pollWrite_eq]
    exact takeBytes_positive aead debug buf some_ writer collecting.room events
  · have collected := (pollFlushLocal_case aead debug writer flushing events).2
    rw [flushing.pollWrite_eq]
    rcases (writer.pollFlushLocal debug events).andThen_cases (takeBytes aead debug buf) with
      ⟨_, ready, whole⟩ | ⟨_, notReady, _, whole⟩
    · rw [whole]
      exact takeBytes_positive aead debug buf some_ _ (collected ready).1.room _
    · rw [whole]
      exact notReady 0

end EncryptedWriter

/-! ## Whole runs -/

namespace Sending

/-- The encryptor does not fail in this call. -/
def Encrypts (aead : StreamAead) (debug : Bool) (state : Sending) (input : WriterCall) : Prop :=
  (state.call aead debug input).1 ≠ .failed .invalidData

/-- The representation invariant, and what is on the wire. -/
structure Represented (state : Sending) : Prop where
  capacity : state.writer.bytes.buf.capacity = maxChunkSize
  idle : state.writer.isFlushing = false → state.writer.bytes.cursor = 0 ∧
    [0, 0, 0, 0] <+: state.writer.bytes.buf.bytes ∧
    ciphertextOverhead < state.writer.bytes.spareCapacityLen
  flushing : state.writer.isFlushing = true → state.writer.bytes.unread = [] ∨
    ∃ chunk, state.sealed.getLast? = some chunk ∧
      state.writer.bytes.unread <:+ frame chunk.2
  wire : state.sent ++ state.writer.pendingOut = frames (state.sealed.map Prod.snd)
  frameSize : ∀ chunk ∈ state.sealed, (frame chunk.2).length ≤ maxChunkSize

/-- No call from here can go wrong in its arithmetic, and `poll_write` takes what it says. -/
structure Safe (aead : StreamAead) (debug : Bool) (state : Sending) : Prop where
  calm : ∀ input panic, (state.call aead debug input).1 ≠ .panicked panic
  room : ∀ taking, EncryptedWriter.Taking debug state.writer taking →
    ciphertextOverhead < taking.bytes.spareCapacityLen
  positive : ∀ buf events, buf ≠ [] →
    (state.writer.pollWrite aead debug buf events).outcome ≠ .ready 0
  taken : ∀ buf events, Encrypts aead debug state (.pollWrite buf events) →
    ((state.writer.pollWrite aead debug buf events).sealed.map Prod.fst).flatten ++
        (state.writer.pollWrite aead debug buf events).writer.buffered =
      state.writer.buffered ++
        EncryptedWriter.takenFrom buf (state.writer.pollWrite aead debug buf events).outcome

/-- At most one frame is on its way out, and it is the last one made. -/
def OneFrame (state : Sending) : Prop :=
  state.writer.pendingOut = [] ∨
    ∃ chunk, state.sealed.getLast? = some chunk ∧ state.writer.pendingOut <:+ frame chunk.2

theorem OneFrame.record {state : Sending} (oneFrame : state.OneFrame) {α : Type}
    (taken : List UInt8) (poll : WritePoll α)
    (leaves : EncryptedWriter.Leaves state.writer poll) : (state.record taken poll).OneFrame := by
  cases leaves with
  | same sealed rest =>
      have sealedEq : (state.record taken poll).sealed = state.sealed := by
        show state.sealed ++ poll.sealed = _
        rw [sealed, List.append_nil]
      rcases oneFrame with none | ⟨chunk, last, suffix⟩
      · rw [none] at rest
        exact Or.inl (List.suffix_nil.mp rest)
      · exact Or.inr ⟨chunk, sealedEq ▸ last, rest.trans suffix⟩
  | made chunk sealed rest =>
      refine Or.inr ⟨chunk, ?_, rest⟩
      show (state.sealed ++ poll.sealed).getLast? = some chunk
      rw [sealed, List.getLast?_concat]

theorem OneFrame.after_call {state : Sending} (oneFrame : state.OneFrame)
    (shaped : state.writer.Shaped) (aead : StreamAead) (debug : Bool) (input : WriterCall) :
    (state.call aead debug input).2.OneFrame := by
  cases input with
  | pollWrite buf events =>
      exact oneFrame.record _ _
        (EncryptedWriter.pollWrite_leaves aead debug buf state.writer shaped events)
  | pollFlush events =>
      exact oneFrame.record _ _
        (EncryptedWriter.pollFlush_leaves aead debug state.writer shaped events)
  | pollShutdown events =>
      exact oneFrame.record _ _
        (EncryptedWriter.pollShutdown_leaves aead debug state.writer shaped events)

/-- A run in which the encryptor never fails stays healthy, with one frame at a time. -/
theorem within_healthy (aead : StreamAead) (debug : Bool) (first : StreamLE31)
    (calls : List WriterCall) (state final : Sending) (healthy : Healthy aead first state)
    (oneFrame : state.OneFrame)
    (run : RunsWithin (Sending.step aead debug) (Encrypts aead debug) state calls final) :
    Healthy aead first final ∧ final.OneFrame := by
  refine run.invariant (fun after => Healthy aead first after ∧ after.OneFrame) ?_
    ⟨healthy, oneFrame⟩
  intro before input next encrypts holds stepRun
  obtain ⟨_, _, rfl⟩ := (step_eq_some aead debug before next input).mp stepRun
  have later := holds.2.after_call holds.1.shaped aead debug input
  rcases holds.1.after_call debug input with ⟨_, after⟩ | ⟨failed, _⟩
  · exact ⟨after, later⟩
  · exact absurd failed encrypts

theorem Healthy.represented {aead : StreamAead} {first : StreamLE31} {state : Sending}
    (healthy : Healthy aead first state) (oneFrame : state.OneFrame) : Represented state where
  capacity := healthy.shaped.capacity
  idle := by
    intro idle
    have collecting := healthy.shaped.collecting idle
    exact ⟨collecting.cursor, ⟨_, collecting.bytes_eq.1.symm⟩, collecting.room⟩
  flushing := by
    intro flushing
    rw [← EncryptedWriter.pendingOut_flushing state.writer flushing]
    exact oneFrame
  wire := healthy.wire
  frameSize := by
    intro chunk member
    have message := aead.sealChunks_lengths _ _ _ _ maxPlain healthy.encryptor healthy.small
      chunk.2 (List.mem_map_of_mem member)
    rw [maxPlain, maxChunkSize, ciphertextOverhead] at message
    rw [frame_length, maxChunkSize]
    omega

theorem Healthy.safe {aead : StreamAead} {first : StreamLE31} {state : Sending}
    (healthy : Healthy aead first state) (debug : Bool) : Safe aead debug state where
  calm := by
    intro input panic
    rcases healthy.after_call debug input with ⟨calm, _⟩ | ⟨failed, _⟩
    · exact calm panic
    · rw [failed]
      intro panicked
      cases panicked
  room := fun _ taking => taking.room aead healthy.shaped
  positive := fun buf events some_ =>
    EncryptedWriter.pollWrite_positive aead debug buf some_ state.writer healthy.shaped events
  taken := by
    intro buf events encrypts
    cases EncryptedWriter.pollWrite_case aead debug buf state.writer healthy.shaped events with
    | emits calm run => exact run.plain.symm
    | exhausted may outcome spent encryptor plain small =>
        refine absurd ?_ encrypts
        simp only [call, outcome, Outcome.map]

theorem writer_invariant (aead : StreamAead) (debug : Bool) (sharedKey : Key) (nonce : Nonce)
    (calls : List WriterCall) (state : Sending)
    (run : RunsWithin (Sending.step aead debug) (Encrypts aead debug)
      (Sending.start sharedKey nonce) calls state) :
    Represented state ∧ Safe aead debug state := by
  obtain ⟨healthy, oneFrame⟩ := within_healthy aead debug _ calls _ state
    (start_healthy aead sharedKey nonce) (Or.inl rfl) run
  exact ⟨healthy.represented oneFrame, healthy.safe debug⟩

/-- A writer whose inner writer took three bytes of its first frame. -/
def partlySent : Sending :=
  ((EncryptedWriter.collected [97]).call paddingAead true (.pollFlush [.ready 3, .pending])).2

theorem partlySent_represented :
    partlySent.writer.bytes.unread.length = 18 ∧ Represented partlySent ∧
      Safe paddingAead true partlySent := by
  have written : Sending.step paddingAead true (Sending.start [] []) (.pollWrite [97] []) =
      some (EncryptedWriter.collected [97]) := rfl
  have flushed : Sending.step paddingAead true (EncryptedWriter.collected [97])
      (.pollFlush [.ready 3, .pending]) = some partlySent := rfl
  have first : Encrypts paddingAead true (Sending.start [] []) (.pollWrite [97] []) := by
    rw [Encrypts]
    decide
  have second : Encrypts paddingAead true (EncryptedWriter.collected [97])
      (.pollFlush [.ready 3, .pending]) := by
    rw [Encrypts]
    decide
  exact ⟨rfl, writer_invariant paddingAead true [] [] _ partlySent
    (.cons _ _ _ _ _ first written (.cons _ _ _ _ _ second flushed (.nil _)))⟩

end Sending
end Gday.Encryption
