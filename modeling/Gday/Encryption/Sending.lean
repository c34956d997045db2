import Gday.Lib.Machine
import Gday.Encryption.WriterSpec

/-! # Whole runs of the writer

`Sending` is a writer with what its caller gave it, the chunks it encrypted with their
ciphertexts, and what it put on the wire behind the nonce.  As long as encryption
succeeds the wire carries the frames of these ciphertexts in order (`Healthy`); once
it fails nothing is encrypted any more (`Spent`). -/
set_option autoImplicit false
namespace Gday.Encryption

open Gday.Lib.AsyncStream Gday.Lib.Framing Gday.Lib.Machine

inductive WriterCall where
  | pollWrite (buf : List UInt8) (events : List WriteEvent)
  | pollFlush (events : List WriteEvent)
  | pollShutdown (events : List WriteEvent)
  deriving DecidableEq, Repr

structure Sending where
  writer : EncryptedWriter
  accepted : List UInt8
  sealed : List (List UInt8 × List UInt8)
  sent : List UInt8
  deriving DecidableEq

namespace Sending

def start (sharedKey : Key) (nonce : Nonce) : Sending :=
  ⟨EncryptedWriter.new sharedKey nonce, [], [], []⟩

/-- The state after a poll that took `taken` from its caller. -/
def record {α : Type} (state : Sending) (taken : List UInt8) (poll : WritePoll α) : Sending :=
  { writer := poll.writer, accepted := state.accepted ++ taken,
    sealed := state.sealed ++ poll.sealed, sent := state.sent ++ sentBytes poll.calls }

/-- What a call returns (of `poll_write` only that it is done), and the state after it. -/
def call (aead : StreamAead) (debug : Bool) (state : Sending) :
    WriterCall → Outcome Unit × Sending
  | .pollWrite buf events =>
      let poll := state.writer.pollWrite aead debug buf events
      (poll.outcome.map fun _ => (), state.record (EncryptedWriter.takenFrom buf poll.outcome) poll)
  | .pollFlush events =>
      let poll := state.writer.pollFlush aead debug events
      (poll.outcome, state.record [] poll)
  | .pollShutdown events =>
      let poll := state.writer.pollShutdown aead debug events
      (poll.outcome, state.record [] poll)

/-- A run goes on unless the call panicked or is still waiting for its inner writer. -/
def step (aead : StreamAead) (debug : Bool) (state : Sending) (input : WriterCall) :
    Option Sending :=
  match state.call aead debug input with
  | (.panicked _, _) => none
  | (.waiting, _) => none
  | (_, next) => some next

theorem step_eq_some (aead : StreamAead) (debug : Bool) (state next : Sending)
    (input : WriterCall) :
    state.step aead debug input = some next ↔
      (∀ panic, (state.call aead debug input).1 ≠ .panicked panic) ∧
        (state.call aead debug input).1 ≠ .waiting ∧
          (state.call aead debug input).2 = next := by
  rw [step]
  generalize state.call aead debug input = result
  obtain ⟨outcome, after⟩ := result
  cases outcome <;> simp

/-- A call adds to what was encrypted, sent and accepted. -/
theorem call_grows (aead : StreamAead) (debug : Bool) (state : Sending) (input : WriterCall) :
    (∃ sealed, (state.call aead debug input).2.sealed = state.sealed ++ sealed) ∧
      (∃ bytes, (state.call aead debug input).2.sent = state.sent ++ bytes) ∧
        state.accepted <+: (state.call aead debug input).2.accepted := by
  cases input with
  | pollWrite buf events => exact ⟨⟨_, rfl⟩, ⟨_, rfl⟩, List.prefix_append ..⟩
  | pollFlush events => exact ⟨⟨_, rfl⟩, ⟨_, rfl⟩, List.prefix_append ..⟩
  | pollShutdown events => exact ⟨⟨_, rfl⟩, ⟨_, rfl⟩, List.prefix_append ..⟩

/-- Every encryption succeeded so far. -/
structure Healthy (aead : StreamAead) (first : StreamLE31) (state : Sending) : Prop where
  encryptor : aead.sealChunks first (state.sealed.map Prod.fst) =
    some (state.sealed.map Prod.snd, state.writer.encryptor)
  wire : state.sent ++ state.writer.pendingOut = frames (state.sealed.map Prod.snd)
  plain : state.accepted = (state.sealed.map Prod.fst).flatten ++ state.writer.buffered
  small : ∀ chunk ∈ state.sealed.map Prod.fst, chunk.length ≤ maxPlain
  shaped : state.writer.Shaped

/-- An encryption has failed, as every later one will. -/
structure Spent (aead : StreamAead) (first : StreamLE31) (state : Sending) : Prop where
  spent : state.writer.encryptor.position = aead.counterMax
  encryptor : aead.sealChunks first (state.sealed.map Prod.fst) =
    some (state.sealed.map Prod.snd, state.writer.encryptor)
  plain : (state.sealed.map Prod.fst).flatten <+: state.accepted
  small : ∀ chunk ∈ state.sealed.map Prod.fst, chunk.length ≤ maxPlain

theorem start_healthy (aead : StreamAead) (sharedKey : Key) (nonce : Nonce) :
    Healthy aead (StreamLE31.new sharedKey nonce) (start sharedKey nonce) where
  encryptor := rfl
  wire := rfl
  plain := rfl
  small := by simp [start]
  shaped := Or.inr ⟨rfl, HelperBuf.withCapacity_wellFormed _, rfl⟩

theorem Healthy.record {aead : StreamAead} {first : StreamLE31} {state : Sending}
    (healthy : Healthy aead first state) {α : Type} {poll : WritePoll α} {taken : List UInt8}
    (run : EncryptedWriter.Emits aead state.writer taken poll.sealed (sentBytes poll.calls)
      poll.writer) : Healthy aead first (state.record taken poll) where
  encryptor := by
    show aead.sealChunks first ((state.sealed ++ poll.sealed).map Prod.fst) = _
    rw [List.map_append, aead.sealChunks_append _ _ _ _ _ healthy.encryptor, run.encryptor]
    simp [Sending.record]
  wire := by
    show (state.sent ++ sentBytes poll.calls) ++ poll.writer.pendingOut =
      frames ((state.sealed ++ poll.sealed).map Prod.snd)
    rw [List.map_append, frames_append, List.append_assoc, ← run.wire, ← List.append_assoc,
      healthy.wire]
  plain := by
    show state.accepted ++ taken =
      ((state.sealed ++ poll.sealed).map Prod.fst).flatten ++ poll.writer.buffered
    rw [List.map_append, List.flatten_append, List.append_assoc, ← run.plain, healthy.plain,
      List.append_assoc]
  small := by
    intro chunk member
    rw [show (state.record taken poll).sealed = state.sealed ++ poll.sealed from rfl,
      List.map_append] at member
    rcases List.mem_append.mp member with member | member
    · exact healthy.small chunk member
    · exact run.small chunk member
  shaped := run.shaped

/-- The two ways a poll leaves a healthy writer. -/
theorem Healthy.after_poll {aead : StreamAead} {first : StreamLE31} {state : Sending}
    (healthy : Healthy aead first state) {α : Type} {encrypts : Prop}
    {takenBy : Outcome α → List UInt8} {poll : WritePoll α}
    (pollCase : EncryptedWriter.PollCase aead encrypts state.writer takenBy poll) :
    ((∀ panic, poll.outcome ≠ .panicked panic) ∧
        Healthy aead first (state.record (takenBy poll.outcome) poll)) ∨
      (poll.outcome = .failed .invalidData ∧ ∀ taken,
        Spent aead first (state.record taken poll)) := by
  cases pollCase with
  | emits calm run => exact Or.inl ⟨calm, healthy.record run⟩
  | exhausted may outcome spent encryptor plain small =>
      refine Or.inr ⟨outcome, fun taken => ⟨spent, ?_, ?_, ?_⟩⟩
      · show aead.sealChunks first ((state.sealed ++ poll.sealed).map Prod.fst) = _
        rw [List.map_append, aead.sealChunks_append _ _ _ _ _ healthy.encryptor, encryptor]
        simp [Sending.record]
      · show ((state.sealed ++ poll.sealed).map Prod.fst).flatten <+: state.accepted ++ taken
        rw [List.map_append, List.flatten_append, healthy.plain, List.append_assoc]
        exact (List.prefix_append_right_inj _).mpr (plain.trans (List.prefix_append ..))
      · intro chunk member
        rw [show (state.record taken poll).sealed = state.sealed ++ poll.sealed from rfl,
          List.map_append] at member
        rcases List.mem_append.mp member with member | member
        · exact healthy.small chunk member
        · exact small chunk member

theorem Healthy.after_call {aead : StreamAead} {first : StreamLE31} {state : Sending}
    (healthy : Healthy aead first state) (debug : Bool) (input : WriterCall) :
    ((∀ panic, (state.call aead debug input).1 ≠ .panicked panic) ∧
        Healthy aead first (state.call aead debug input).2) ∨
      ((state.call aead debug input).1 = .failed .invalidData ∧
        Spent aead first (state.call aead debug input).2) := by
  cases input with
  | pollWrite buf events =>
      have pollCase :=
        EncryptedWriter.pollWrite_case aead debug buf state.writer healthy.shaped events
      rcases healthy.after_poll pollCase with ⟨calm, after⟩ | ⟨outcome, spent⟩
      · refine Or.inl ⟨?_, after⟩
        intro panic panicked
        simp only [call] at panicked
        generalize (state.writer.pollWrite aead debug buf events).outcome = outcome at calm panicked
        cases outcome with
        | panicked other => exact calm other rfl
        | ready value => cases panicked
        | failed kind => cases panicked
        | pending => cases panicked
        | waiting => cases panicked
      · refine Or.inr ⟨?_, spent _⟩
        simp only [call, outcome, Outcome.map]
  | pollFlush events =>
      have pollCase :=
        (EncryptedWriter.pollFlush_case aead debug state.writer healthy.shaped events).1
      rcases healthy.after_poll pollCase with ⟨calm, after⟩ | ⟨outcome, spent⟩
      · exact Or.inl ⟨calm, after⟩
      · exact Or.inr ⟨outcome, spent _⟩
  | pollShutdown events =>
      have pollCase :=
        EncryptedWriter.pollShutdown_case aead debug state.writer healthy.shaped events
      rcases healthy.after_poll pollCase with ⟨calm, after⟩ | ⟨outcome, spent⟩
      · exact Or.inl ⟨calm, after⟩
      · exact Or.inr ⟨outcome, spent _⟩

/-- After a flush that succeeded everything that was accepted is on the wire. -/
theorem Healthy.flushed {aead : StreamAead} {first : StreamLE31} {state : Sending}
    (healthy : Healthy aead first state) (debug : Bool) (events : List WriteEvent)
    (ready : (state.call aead debug (.pollFlush events)).1 = .ready ()) :
    (state.call aead debug (.pollFlush events)).2.accepted =
        ((state.call aead debug (.pollFlush events)).2.sealed.map Prod.fst).flatten ∧
      (state.call aead debug (.pollFlush events)).2.sent =
        frames ((state.call aead debug (.pollFlush events)).2.sealed.map Prod.snd) := by
  obtain ⟨collecting, empty⟩ := (EncryptedWriter.pollFlush_case aead debug state.writer
    healthy.shaped events).2 ready
  rcases healthy.after_call debug (.pollFlush events) with ⟨_, after⟩ | ⟨failed, _⟩
  · have plain := after.plain
    have wire := after.wire
    have idle : (state.call aead debug (.pollFlush events)).2.writer.isFlushing = false :=
      collecting.idle
    have pending : (state.call aead debug (.pollFlush events)).2.writer.pendingOut = [] := by
      rw [EncryptedWriter.pendingOut, idle]
      rfl
    have buffered : (state.call aead debug (.pollFlush events)).2.writer.buffered = [] := empty
    rw [buffered, List.append_nil] at plain
    rw [pending, List.append_nil] at wire
    exact ⟨plain, wire⟩
  · rw [failed] at ready
    cases ready

theorem Spent.record {aead : StreamAead} {first : StreamLE31} {state : Sending}
    (spent : Spent aead first state) {α : Type} {poll : WritePoll α} (taken : List UInt8)
    (keeps : EncryptedWriter.Keeps state.writer poll) :
    Spent aead first (state.record taken poll) := by
  have sealedEq : (state.record taken poll).sealed = state.sealed := by
    show state.sealed ++ poll.sealed = _
    rw [keeps.sealed, List.append_nil]
  have encryptorEq : (state.record taken poll).writer.encryptor = state.writer.encryptor :=
    keeps.encryptor
  exact
    { spent := by rw [encryptorEq]; exact spent.spent
      encryptor := by rw [sealedEq, encryptorEq]; exact spent.encryptor
      plain := by
        rw [sealedEq]
        exact spent.plain.trans (List.prefix_append ..)
      small := by
        rw [sealedEq]
        exact spent.small }

theorem Spent.after_call {aead : StreamAead} {first : StreamLE31} {state : Sending}
    (spent : Spent aead first state) (debug : Bool) (input : WriterCall) :
    Spent aead first (state.call aead debug input).2 := by
  cases input with
  | pollWrite buf events =>
      exact spent.record _
        (EncryptedWriter.pollWrite_keeps aead debug buf state.writer spent.spent events)
  | pollFlush events =>
      exact spent.record _
        (EncryptedWriter.pollFlush_keeps aead debug state.writer spent.spent events)
  | pollShutdown events =>
      exact spent.record _
        (EncryptedWriter.pollShutdown_keeps aead debug state.writer spent.spent events)

/-- After any run the chunks were encrypted in order, are a prefix of what the writer
accepted, and fit a frame each. -/
theorem run_sealed (aead : StreamAead) (debug : Bool) (first : StreamLE31)
    (calls : List WriterCall) (state final : Sending) (healthy : Healthy aead first state)
    (run : runInputs (Sending.step aead debug) calls state = some final) :
    aead.sealChunks first (final.sealed.map Prod.fst) =
        some (final.sealed.map Prod.snd, final.writer.encryptor) ∧
      (final.sealed.map Prod.fst).flatten <+: final.accepted ∧
        ∀ chunk ∈ final.sealed.map Prod.fst, chunk.length ≤ maxPlain := by
  have either : Healthy aead first final ∨ Spent aead first final := by
    refine runInputs_invariant (Sending.step aead debug)
      (fun after => Healthy aead first after ∨ Spent aead first after)
      ?_ calls state final (Or.inl healthy) run
    intro middle input next before stepRun
    obtain ⟨_, _, rfl⟩ := (step_eq_some aead debug middle next input).mp stepRun
    rcases before with healthy | spent
    · rcases healthy.after_call debug input with ⟨_, after⟩ | ⟨_, after⟩
      · exact Or.inl after
      · exact Or.inr after
    · exact Or.inr (spent.after_call debug input)
  rcases either with healthy | spent
  · exact ⟨healthy.encryptor, healthy.plain ▸ List.prefix_append .., healthy.small⟩
  · exact ⟨spent.encryptor, spent.plain, spent.small⟩

end Sending
end Gday.Encryption
