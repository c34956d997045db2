import Gday.Encryption.WriterInvariant
import Gday.Encryption.WriterProgress

/-! # What a failed encryption costs

The `?` of `start_flushing` leaves between `split_off` and `unsplit`.  The half with the
plaintext is dropped, and the header's four bytes are all that is left of the buffer and of
its capacity. -/
set_option autoImplicit false
namespace Gday.Encryption

open Gday.Lib.AsyncStream Gday.Lib.Machine

namespace EncryptedWriter

/-! ## The outcomes that are no failed encryption -/

theorem ready_valid {α : Type} (value : α) : Outcome.ready value ≠ .failed .invalidData := by
  intro same
  cases same

theorem inner_valid {α : Type} : (.failed .inner : Outcome α) ≠ .failed .invalidData := by
  intro same
  cases same

theorem pending_valid {α : Type} : (.pending : Outcome α) ≠ .failed .invalidData := by
  intro same
  cases same

theorem panicked_valid {α : Type} (panic : Panic) :
    (.panicked panic : Outcome α) ≠ .failed .invalidData := by
  intro same
  cases same

theorem waiting_valid {α : Type} : (.waiting : Outcome α) ≠ .failed .invalidData := by
  intro same
  cases same

/-! ## Where the failure comes from -/

/-- The plaintext cannot be there: `fits` leaves it no room. -/
theorem buffered_of_capacity (writer : EncryptedWriter)
    (capacity : writer.bytes.buf.capacity = 4) : writer.buffered = [] := by
  have fits := writer.bytes.buf.fits
  rw [buffered]
  split
  · rfl
  · rw [List.drop_eq_nil_iff]
    omega

theorem startFlushing_capacity (aead : StreamAead) (writer next : EncryptedWriter)
    (kind : ErrorKind) (run : startFlushing aead writer = .ok (next, .error kind)) :
    next.bytes.buf.capacity = 4 ∧ next.encryptor = writer.encryptor ∧
      writer.encryptor.position = aead.counterMax := by
  rw [startFlushing, BytesMut.splitOff] at run
  by_cases long : 4 ≤ writer.bytes.buf.capacity
  · rw [if_pos long] at run
    simp only at run
    cases encrypted : aead.encryptNextInPlace writer.encryptor (writer.bytes.buf.bytes.drop 4) with
    | none =>
        rw [encrypted] at run
        cases run
        refine ⟨rfl, rfl, ?_⟩
        by_contra going
        rw [StreamAead.encryptNextInPlace, if_neg going] at encrypted
        cases encrypted
    | some pair =>
        obtain ⟨sealed, encryptor⟩ := pair
        rw [encrypted] at run
        simp only at run
        split at run
        · split at run
          · cases run
          · cases run
        · cases run
  · rw [if_neg long] at run
    cases run

/-- A poll whose encryption failed. -/
def Loses {α : Type} (aead : StreamAead) (poll : WritePoll α) : Prop :=
  poll.outcome = .failed .invalidData →
    poll.writer.bytes.buf.capacity = 4 ∧ poll.writer.encryptor.position = aead.counterMax

theorem Loses.of_other {α : Type} {aead : StreamAead} {poll : WritePoll α}
    (other : poll.outcome ≠ .failed .invalidData) : Loses aead poll :=
  fun invalid => absurd invalid other

theorem flushLoop_other (events : List WriteEvent) (writer : EncryptedWriter) :
    (flushLoop events writer).outcome ≠ .failed .invalidData := by
  refine flushLoop_rule (fun _ poll => poll.outcome ≠ .failed .invalidData) ?_ ?_ ?_ events writer
  · intro writer outcome events _ valid
    exact valid
  · intro writer events
    exact ready_valid ()
  · intro writer bytes chunk poll later
    exact later

theorem pollFlushLocal_other (debug : Bool) (writer : EncryptedWriter)
    (events : List WriteEvent) :
    (writer.pollFlushLocal debug events).outcome ≠ .failed .invalidData := by
  rw [pollFlushLocal]
  cases debugAssert debug writer.isFlushing with
  | error panic => exact panicked_valid panic
  | ok asserted => exact flushLoop_other events writer

theorem pollInner_other (call : InnerCall) (writer : EncryptedWriter)
    (events : List WriteEvent) :
    (pollInner call writer events).outcome ≠ .failed .invalidData := by
  cases events with
  | nil => exact waiting_valid
  | cons event events =>
      cases event with
      | pending => exact pending_valid
      | error => exact inner_valid
      | ready limit => exact ready_valid ()

theorem Loses.andThen {aead : StreamAead} {α : Type} {first : WritePoll Unit}
    {rest : EncryptedWriter → List WriteEvent → WritePoll α} (loses : Loses aead first)
    (later : Loses aead (rest first.writer first.events)) : Loses aead (first.andThen rest) := by
  intro invalid
  rcases first.andThen_cases rest with ⟨_, _, whole⟩ | ⟨outcome, _, same, whole⟩
  · rw [whole] at invalid ⊢
    exact later invalid
  · rw [whole] at invalid ⊢
    rw [show outcome = .failed .invalidData from invalid] at same
    exact loses ((Outcome.map_eq_failed _ _ _).mp same.symm)

theorem flushThen_loses (aead : StreamAead) {α : Type} (writer : EncryptedWriter)
    (events : List WriteEvent) (rest : EncryptedWriter → WritePoll α)
    (later : ∀ next, Loses aead (rest next)) : Loses aead (flushThen aead writer events rest) := by
  rw [flushThen]
  cases run : startFlushing aead writer with
  | error panic => exact Loses.of_other (panicked_valid panic)
  | ok result =>
      obtain ⟨next, verdict⟩ := result
      cases verdict with
      | error kind =>
          obtain ⟨capacity, encryptor, spent⟩ := startFlushing_capacity aead writer next kind run
          exact fun _ => ⟨capacity, encryptor ▸ spent⟩
      | ok chunk => exact later next

theorem takeBytes_loses (aead : StreamAead) (debug : Bool) (buf : List UInt8)
    (writer : EncryptedWriter) (events : List WriteEvent) :
    Loses aead (takeBytes aead debug buf writer events) := by
  rw [takeBytes]
  cases subUsize debug writer.bytes.spareCapacityLen ciphertextOverhead with
  | error panic => exact Loses.of_other (panicked_valid panic)
  | ok room =>
      simp only
      cases slice buf 0 (min buf.length room) with
      | error panic => exact Loses.of_other (panicked_valid panic)
      | ok taken =>
          simp only
          split
          · exact flushThen_loses aead _ events _ fun next => Loses.of_other (ready_valid _)
          · exact Loses.of_other (ready_valid _)

theorem pollWrite_loses (aead : StreamAead) (debug : Bool) (buf : List UInt8)
    (writer : EncryptedWriter) (events : List WriteEvent) :
    Loses aead (writer.pollWrite aead debug buf events) := by
  rw [pollWrite]
  cases debugAssert debug (decide (writer.bytes.buf.capacity = maxChunkSize)) with
  | error panic => exact Loses.of_other (panicked_valid panic)
  | ok asserted =>
      simp only
      split
      · exact (Loses.of_other (pollFlushLocal_other debug writer events)).andThen
          (takeBytes_loses aead debug buf _ _)
      · exact takeBytes_loses aead debug buf writer events

theorem flushOut_loses (aead : StreamAead) (debug : Bool) (writer : EncryptedWriter)
    (events : List WriteEvent) : Loses aead (flushOut debug writer events) := by
  rw [flushOut]
  split
  · exact (Loses.of_other (pollFlushLocal_other debug writer events)).andThen
      (Loses.of_other (pollInner_other .flush _ _))
  · exact Loses.of_other (pollInner_other .flush writer events)

theorem pollFlush_loses (aead : StreamAead) (debug : Bool) (writer : EncryptedWriter)
    (events : List WriteEvent) : Loses aead (writer.pollFlush aead debug events) := by
  rw [pollFlush]
  cases writer.bytes.data with
  | error panic => exact Loses.of_other (panicked_valid panic)
  | ok data =>
      simp only
      split
      · exact flushThen_loses aead writer events _
          fun next => flushOut_loses aead debug next events
      · exact flushOut_loses aead debug writer events

theorem pollShutdown_loses (aead : StreamAead) (debug : Bool) (writer : EncryptedWriter)
    (events : List WriteEvent) : Loses aead (writer.pollShutdown aead debug events) :=
  (pollFlush_loses aead debug writer events).andThen
    (Loses.of_other (pollInner_other .shutdown _ _))

end EncryptedWriter

/-! ## The call that fails -/

namespace Sending

open EncryptedWriter

theorem call_loses (aead : StreamAead) (debug : Bool) (state : Sending) (input : WriterCall)
    (failed : (state.call aead debug input).1 = .failed .invalidData) :
    (state.call aead debug input).2.writer.bytes.buf.capacity = 4 ∧
      Quiet aead (state.call aead debug input).2.writer := by
  have idle := call_invalid_idle aead debug state input failed
  cases input with
  | pollWrite buf events =>
      obtain ⟨capacity, spent⟩ := pollWrite_loses aead debug buf state.writer events
        ((Outcome.map_eq_failed _ _ _).mp failed)
      exact ⟨capacity, idle, spent⟩
  | pollFlush events =>
      obtain ⟨capacity, spent⟩ := pollFlush_loses aead debug state.writer events failed
      exact ⟨capacity, idle, spent⟩
  | pollShutdown events =>
      obtain ⟨capacity, spent⟩ := pollShutdown_loses aead debug state.writer events failed
      exact ⟨capacity, idle, spent⟩

/-- The call fails, with the plaintext still there; and whatever is called later, nothing
panics or underflows, nothing is sent, and less than a chunk is accepted in vain. -/
structure KeepsPlaintext (aead : StreamAead) (debug : Bool) (state : Sending)
    (input : WriterCall) : Prop where
  failed : (state.call aead debug input).1 = .failed .invalidData
  plaintext : state.writer.buffered <+: (state.call aead debug input).2.writer.buffered
  capacity : (state.call aead debug input).2.writer.bytes.buf.capacity = maxChunkSize
  later : ∀ calls final,
    runInputs (Sending.step aead debug) calls (state.call aead debug input).2 = some final →
      (∀ next panic, (final.call aead debug next).1 ≠ .panicked panic) ∧
      (∀ taking, Taking debug final.writer taking →
        ciphertextOverhead ≤ taking.bytes.spareCapacityLen) ∧
      final.sent = (state.call aead debug input).2.sent ∧
      final.accepted.length < (final.sealed.map Prod.fst).flatten.length + maxChunkSize

/-- The room of a buffer of four bytes. -/
theorem room_underflows (writer : EncryptedWriter) (capacity : writer.bytes.buf.capacity = 4) :
    subUsize true writer.bytes.spareCapacityLen ciphertextOverhead = .error .overflow ∧
      ∃ room, subUsize false writer.bytes.spareCapacityLen ciphertextOverhead = .ok room ∧
        2 ^ 64 - ciphertextOverhead ≤ room := by
  have spare := writer.bytes.spare_add_len
  have small : ¬ ciphertextOverhead ≤ writer.bytes.spareCapacityLen := by
    rw [ciphertextOverhead]
    omega
  refine ⟨?_, 2 ^ 64 + writer.bytes.spareCapacityLen - ciphertextOverhead, ?_, ?_⟩
  · rw [subUsize, if_neg small, if_pos rfl]
  · rw [subUsize, if_neg small, if_neg Bool.false_ne_true]
  · rw [ciphertextOverhead]
    omega

/-- Wherever an encryption fails, nothing of the plaintext is left, the capacity is four
bytes, a debug build panics at the next `poll_write` and any other underflows there. -/
theorem failure_loses (aead : StreamAead) (debug : Bool) (state : Sending) (input : WriterCall)
    (failed : (state.call aead debug input).1 = .failed .invalidData) :
    ¬ KeepsPlaintext aead debug state input ∧
      (state.call aead debug input).2.writer.buffered = [] ∧
      (state.call aead debug input).2.writer.bytes.buf.capacity = 4 ∧
      (∀ buf events, ((state.call aead debug input).2.call aead true (.pollWrite buf events)).1 =
        .panicked .debugAssertion) ∧
      (∃ room, subUsize false (state.call aead debug input).2.writer.bytes.spareCapacityLen
        ciphertextOverhead = .ok room ∧ 2 ^ 64 - ciphertextOverhead ≤ room) ∧
      Quiet aead (state.call aead debug input).2.writer := by
  obtain ⟨capacity, quiet⟩ := call_loses aead debug state input failed
  have other : (4 : Nat) ≠ maxChunkSize := by decide
  refine ⟨?_, buffered_of_capacity _ capacity, capacity, ?_, (room_underflows _ capacity).2, quiet⟩
  · intro keeps
    exact other (capacity.symm.trans keeps.capacity)
  · intro buf events
    rw [call, EncryptedWriter.pollWrite, capacity, decide_eq_false other]
    rfl

/-! ## The counter can be used up -/

/-- Every flush of an idle writer takes one position. -/
theorem pollFlush_advances (aead : StreamAead) (debug : Bool) (writer : EncryptedWriter)
    (collecting : writer.Collecting) (going : writer.encryptor.position ≠ aead.counterMax) :
    ∃ events, (writer.pollFlush aead debug events).outcome = .ready () ∧
      (writer.pollFlush aead debug events).writer.encryptor = writer.encryptor.advance := by
  rcases collecting.startFlushing_cases aead with
    ⟨spent, _⟩ | ⟨next, message, run, encrypted, flushing, _⟩
  · exact absurd spent going
  · obtain ⟨_, _, advanced⟩ := (aead.encryptNextInPlace_eq_some _ _ _ _).mp encrypted
    refine ⟨next.takesAll, ?_, ?_⟩
    · rw [collecting.pollFlush_eq, flushThen, run]
      exact flushOut_all debug flushing
    · rw [collecting.pollFlush_eq, flushThen, run]
      exact (flushOut_keeps debug next _).encryptor.trans advanced

theorem step_ready (aead : StreamAead) (debug : Bool) (state : Sending) (input : WriterCall)
    (ready : (state.call aead debug input).1 = .ready ()) :
    state.step aead debug input = some (state.call aead debug input).2 := by
  rw [step_eq_some, ready]
  refine ⟨?_, ?_, rfl⟩
  · intro panic same
    cases same
  · intro same
    cases same

/-- An idle writer without plaintext, after as many chunks as `position` says. -/
structure At (position : Nat) (state : Sending) : Prop where
  collecting : state.writer.Collecting
  empty : state.writer.buffered = []
  position : state.writer.encryptor.position = position

theorem At.flush {position : Nat} {state : Sending} (here : state.At position)
    (aead : StreamAead) (debug : Bool) (going : position ≠ aead.counterMax) :
    ∃ events next, state.step aead debug (.pollFlush events) = some next ∧
      next.At (position + 1) := by
  obtain ⟨events, ready, advanced⟩ := pollFlush_advances aead debug state.writer here.collecting
    (here.position ▸ going)
  obtain ⟨collecting, empty⟩ :=
    (pollFlush_case aead debug state.writer (Or.inl here.collecting) events).2 ready
  refine ⟨events, (state.call aead debug (.pollFlush events)).2, ?_, collecting, empty, ?_⟩
  · exact step_ready aead debug state (.pollFlush events) ready
  · show (state.writer.pollFlush aead debug events).writer.encryptor.position = position + 1
    rw [advanced, StreamLE31.advance_position, here.position]

/-- By induction on the position, one flush at a time. -/
theorem exists_at (aead : StreamAead) (debug : Bool) (sharedKey : Key) (nonce : Nonce)
    (position : Nat) (bounded : position ≤ aead.counterMax) :
    ∃ calls state, runInputs (Sending.step aead debug) calls (Sending.start sharedKey nonce) =
      some state ∧ state.At position := by
  induction position with
  | zero =>
      have shaped := (start_healthy aead sharedKey nonce).shaped
      have ready : ((start sharedKey nonce).writer.pollFlush aead debug [.ready 0]).outcome =
          .ready () := by
        cases debug <;> rfl
      obtain ⟨collecting, empty⟩ := (pollFlush_case aead debug _ shaped [.ready 0]).2 ready
      refine ⟨[.pollFlush [.ready 0]],
        ((start sharedKey nonce).call aead debug (.pollFlush [.ready 0])).2, ?_, collecting,
        empty, ?_⟩
      · cases debug <;> rfl
      · cases debug <;> rfl
  | succ position ih =>
      obtain ⟨calls, state, run, here⟩ := ih (Nat.le_of_succ_le bounded)
      obtain ⟨events, next, flushed, there⟩ := here.flush aead debug (Nat.ne_of_lt bounded)
      refine ⟨calls ++ [.pollFlush events], next, ?_, there⟩
      rw [runInputs_append, run, Option.bind_some, runInputs, flushed]
      rfl

/-- Less than the rest of a chunk is only appended. -/
theorem pollWrite_small (aead : StreamAead) (debug : Bool) (buf : List UInt8)
    (writer : EncryptedWriter) (collecting : writer.Collecting)
    (small : writer.buffered.length + buf.length < maxPlain) (events : List WriteEvent) :
    writer.pollWrite aead debug buf events =
        .stop (.ready buf.length) { writer with bytes := writer.bytes.append buf } events ∧
      ({ writer with bytes := writer.bytes.append buf } : EncryptedWriter).Collecting ∧
      ({ writer with bytes := writer.bytes.append buf } : EncryptedWriter).buffered =
        writer.buffered ++ buf := by
  have whole : min buf.length (maxPlain - writer.buffered.length) = buf.length := by omega
  obtain ⟨contents, capacity, nextSpare⟩ :=
    append_taken writer collecting buf (Nat.le_of_lt small)
  refine ⟨?_, ⟨collecting.idle, collecting.cursor, ⟨_, contents, ?_⟩, capacity⟩, ?_⟩
  · rw [collecting.pollWrite_eq, takeBytes, collecting.subUsize_spare debug]
    simp only [whole, slice_take buf buf.length (Nat.le_refl _), List.take_length]
    rw [if_neg (by omega)]
  · rw [List.length_append]
    exact small
  · rw [buffered]
    simp only [collecting.idle, Bool.false_eq_true, if_false, contents]
    rfl

theorem pollFlush_spent (aead : StreamAead) (debug : Bool) (writer : EncryptedWriter)
    (collecting : writer.Collecting) (spent : writer.encryptor.position = aead.counterMax)
    (events : List WriteEvent) :
    (writer.pollFlush aead debug events).outcome = .failed .invalidData := by
  rw [collecting.pollFlush_eq]
  rcases collecting.startFlushing_cases aead with
    ⟨_, next, run, _⟩ | ⟨next, message, run, encrypted, _⟩
  · rw [flushThen, run]
    rfl
  · exact absurd spent ((aead.encryptNextInPlace_eq_some _ _ _ _).mp encrypted).1

/-- As many flushes as the counter has positions, one byte, and one flush more. -/
theorem exists_failure (aead : StreamAead) (debug : Bool) (sharedKey : Key) (nonce : Nonce) :
    ∃ calls state, runInputs (Sending.step aead debug) calls (Sending.start sharedKey nonce) =
        some state ∧ state.writer.buffered = [97] ∧
      ∀ events, (state.call aead debug (.pollFlush events)).1 = .failed .invalidData := by
  obtain ⟨calls, state, run, here⟩ := exists_at aead debug sharedKey nonce aead.counterMax
    (Nat.le_refl _)
  have small : state.writer.buffered.length + [(97 : UInt8)].length < maxPlain := by
    rw [here.empty]
    decide
  obtain ⟨write, collecting, buffered⟩ :=
    pollWrite_small aead debug [97] state.writer here.collecting small []
  refine ⟨calls ++ [.pollWrite [97] []], (state.call aead debug (.pollWrite [97] [])).2, ?_, ?_, ?_⟩
  · have written : state.step aead debug (.pollWrite [97] []) =
        some (state.call aead debug (.pollWrite [97] [])).2 := by
      apply step_ready
      rw [call, write]
      rfl
    rw [runInputs_append, run, Option.bind_some, runInputs, written]
    rfl
  · rw [call, write]
    exact buffered.trans (by rw [here.empty]; rfl)
  · intro events
    rw [call, write]
    exact pollFlush_spent aead debug _ collecting here.position events

theorem exists_failure_loses : ∃ calls state,
    runInputs (Sending.step paddingAead true) calls (Sending.start [] []) = some state ∧
      ¬ KeepsPlaintext paddingAead true state (.pollFlush []) := by
  obtain ⟨calls, state, run, _, fails⟩ := exists_failure paddingAead true [] []
  exact ⟨calls, state, run,
    (failure_loses paddingAead true state (.pollFlush []) (fails [])).1⟩

/-- Behind the last chunk that the counter allows a byte is lost, and with it the buffer. -/
theorem byte_lost : ∃ calls state,
    runInputs (Sending.step paddingAead true) calls (Sending.start [] []) = some state ∧
      state.writer.buffered = [97] ∧
      (state.call paddingAead true (.pollFlush [])).1 = .failed .invalidData ∧
      (state.call paddingAead true (.pollFlush [])).2.writer.buffered = [] ∧
      ¬ KeepsPlaintext paddingAead true state (.pollFlush []) := by
  obtain ⟨calls, state, run, buffered, fails⟩ := exists_failure paddingAead true [] []
  have none := buffered_of_capacity _
    (call_loses paddingAead true state (.pollFlush []) (fails [])).1
  refine ⟨calls, state, run, buffered, fails [], none, ?_⟩
  intro keeps
  have kept := keeps.plaintext
  rw [buffered, none, List.prefix_nil] at kept
  cases kept

end Sending
end Gday.Encryption
