import Gday.Encryption.Sending

/-! # Flushes that emit a frame for nothing

`poll_flush` starts a frame when the buffer is not empty, and behind a drained frame the
buffer is never empty: it has the placeholder of the next header.  So a flush of nothing
emits an empty frame, and so does every poll of a flush or a shutdown that comes back after
the inner writer has taken the frame but was not done with its own flush or shutdown. -/
set_option autoImplicit false
namespace Gday.Encryption

open Gday.Lib.AsyncStream Gday.Lib.BigEndian Gday.Lib.Framing Gday.Lib.Machine

namespace EncryptedWriter

/-! ## The calls and the end of a poll -/

/-- A poll that calls no shutdown, and that is idle when it is done or could not encrypt. -/
structure Draining {α : Type} (poll : WritePoll α) : Prop where
  noShutdown : .shutdown ∉ poll.calls
  idle : ((∃ value, poll.outcome = .ready value) ∨ poll.outcome = .failed .invalidData) →
    poll.writer.isFlushing = false

theorem stop_draining {α : Type} (outcome : Outcome α) (writer : EncryptedWriter)
    (events : List WriteEvent) (notReady : ∀ value, outcome ≠ .ready value)
    (calm : outcome ≠ .failed .invalidData) : Draining (.stop outcome writer events) := by
  refine ⟨List.not_mem_nil, ?_⟩
  intro ends
  rcases ends with ⟨value, ready⟩ | invalid
  · exact absurd ready (notReady value)
  · exact absurd invalid calm

theorem idle_draining {α : Type} (outcome : Outcome α) (writer : EncryptedWriter)
    (events : List WriteEvent) (idle : writer.isFlushing = false) :
    Draining (.stop outcome writer events) := ⟨List.not_mem_nil, fun _ => idle⟩

theorem Draining.andThen {α β : Type} {first : WritePoll α}
    {rest : EncryptedWriter → List WriteEvent → WritePoll β} (draining : Draining first)
    (later : first.writer.isFlushing = false → Draining (rest first.writer first.events)) :
    Draining (first.andThen rest) := by
  rcases first.andThen_cases rest with ⟨value, ready, whole⟩ | ⟨outcome, notReady, same, whole⟩
  · have second := later (draining.idle (.inl ⟨value, ready⟩))
    rw [whole]
    refine ⟨?_, second.idle⟩
    intro member
    rcases List.mem_append.mp member with member | member
    · exact draining.noShutdown member
    · exact second.noShutdown member
  · rw [whole]
    refine ⟨draining.noShutdown, ?_⟩
    intro ends
    rcases ends with ⟨value, ready⟩ | invalid
    · exact absurd ready (notReady value)
    · rw [show outcome = .failed .invalidData from invalid] at same
      exact draining.idle (.inr ((Outcome.map_eq_failed _ _ _).mp same.symm))

/-- What fails to encrypt after a frame is drained leaves no frame in progress. -/
theorem Draining.andThen_idle {α β : Type} {first : WritePoll α}
    {rest : EncryptedWriter → List WriteEvent → WritePoll β} (draining : Draining first)
    (later : first.writer.isFlushing = false →
      (rest first.writer first.events).outcome = .failed .invalidData →
        (rest first.writer first.events).writer.isFlushing = false)
    (invalid : (first.andThen rest).outcome = .failed .invalidData) :
    (first.andThen rest).writer.isFlushing = false := by
  rcases first.andThen_cases rest with ⟨value, ready, whole⟩ | ⟨outcome, _, same, whole⟩
  · rw [whole] at invalid ⊢
    exact later (draining.idle (.inl ⟨value, ready⟩)) invalid
  · rw [whole] at invalid ⊢
    rw [show outcome = .failed .invalidData from invalid] at same
    exact draining.idle (.inr ((Outcome.map_eq_failed _ _ _).mp same.symm))

theorem flushLoop_draining (events : List WriteEvent) (writer : EncryptedWriter) :
    Draining (flushLoop events writer) := by
  refine flushLoop_rule (fun _ poll => Draining poll) ?_ ?_ ?_ events writer
  · intro writer outcome events goesOn valid
    exact stop_draining _ _ _ (fun _ => goesOn) valid
  · intro writer events
    exact idle_draining _ _ _ rfl
  · rintro writer bytes chunk poll ⟨noShutdown, idle⟩
    refine ⟨?_, idle⟩
    intro member
    rcases List.mem_cons.mp member with same | member
    · cases same
    · exact noShutdown member

theorem pollFlushLocal_draining (debug : Bool) (writer : EncryptedWriter)
    (events : List WriteEvent) : Draining (writer.pollFlushLocal debug events) := by
  rw [pollFlushLocal]
  cases debugAssert debug writer.isFlushing with
  | error panic => exact stop_draining _ _ _ (by simp) (by simp)
  | ok asserted => exact flushLoop_draining events writer

theorem startFlushing_fails (aead : StreamAead) (writer next : EncryptedWriter) (kind : ErrorKind)
    (run : startFlushing aead writer = .ok (next, .error kind)) :
    next.isFlushing = writer.isFlushing := by
  rw [startFlushing] at run
  split at run
  · cases run
  · split at run
    · cases run
      rfl
    · split at run
      · split at run
        · cases run
        · cases run
      · cases run

theorem flushThen_draining {α : Type} (aead : StreamAead) (writer : EncryptedWriter)
    (idle : writer.isFlushing = false) (events : List WriteEvent)
    (rest : EncryptedWriter → WritePoll α) (later : ∀ next, Draining (rest next)) :
    Draining (flushThen aead writer events rest) := by
  rw [flushThen]
  cases run : startFlushing aead writer with
  | error panic => exact stop_draining _ _ _ (by simp) (by simp)
  | ok result =>
      obtain ⟨next, result⟩ := result
      cases result with
      | error kind =>
          exact idle_draining _ _ _ ((startFlushing_fails aead writer next kind run).trans idle)
      | ok chunk => exact ⟨(later next).noShutdown, (later next).idle⟩

theorem innerFlush_draining (writer : EncryptedWriter) (events : List WriteEvent)
    (idle : writer.isFlushing = false) : Draining (pollInner .flush writer events) := by
  cases events with
  | nil => exact idle_draining _ _ _ idle
  | cons event events => cases event <;> exact ⟨by simp [pollInner], fun _ => idle⟩

theorem flushOut_draining (debug : Bool) (writer : EncryptedWriter) (events : List WriteEvent) :
    Draining (flushOut debug writer events) := by
  rw [flushOut]
  by_cases flushing : writer.isFlushing = true
  · rw [if_pos flushing]
    exact (pollFlushLocal_draining debug writer events).andThen (innerFlush_draining _ _)
  · rw [if_neg flushing]
    exact innerFlush_draining writer events (Bool.eq_false_iff.mpr flushing)

theorem pollFlush_draining (aead : StreamAead) (debug : Bool) (writer : EncryptedWriter)
    (events : List WriteEvent) : Draining (writer.pollFlush aead debug events) := by
  rw [pollFlush]
  cases writer.bytes.data with
  | error panic => exact stop_draining _ _ _ (by simp) (by simp)
  | ok data =>
      by_cases starts : (!writer.isFlushing && !data.isEmpty) = true
      · simp only [if_pos starts]
        have idle : writer.isFlushing = false := by
          rw [Bool.and_eq_true, Bool.not_eq_true'] at starts
          exact starts.1
        exact flushThen_draining aead writer idle events _
          fun next => flushOut_draining debug next events
      · simp only [if_neg starts]
        exact flushOut_draining debug writer events

theorem takeBytes_idle (aead : StreamAead) (debug : Bool) (buf : List UInt8)
    (writer : EncryptedWriter) (events : List WriteEvent) (idle : writer.isFlushing = false)
    (invalid : (takeBytes aead debug buf writer events).outcome = .failed .invalidData) :
    (takeBytes aead debug buf writer events).writer.isFlushing = false := by
  rw [takeBytes] at invalid ⊢
  cases spare : subUsize debug writer.bytes.spareCapacityLen ciphertextOverhead with
  | error panic => exact idle
  | ok room =>
      simp only [spare] at invalid ⊢
      cases sliced : slice buf 0 (min buf.length room) with
      | error panic => exact idle
      | ok taken =>
          simp only [sliced] at invalid ⊢
          split at invalid
          · rename_i full
            rw [if_pos full]
            rw [flushThen] at invalid ⊢
            cases run : startFlushing aead { writer with bytes := writer.bytes.append taken } with
            | error panic => exact idle
            | ok result =>
                obtain ⟨next, result⟩ := result
                cases result with
                | error kind => exact (startFlushing_fails aead _ next kind run).trans idle
                | ok chunk =>
                    rw [run] at invalid
                    cases invalid
          · cases invalid

/-! ## Writers that can encrypt no more -/

/-- No frame is in progress, and none can be started. -/
structure Quiet (aead : StreamAead) (writer : EncryptedWriter) : Prop where
  idle : writer.isFlushing = false
  spent : writer.encryptor.position = aead.counterMax

/-- Such a writer stays so, and writes nothing. -/
structure StaysQuiet {α : Type} (aead : StreamAead) (poll : WritePoll α) : Prop where
  quiet : Quiet aead poll.writer
  noWrite : ∀ taken, .write taken ∉ poll.calls

theorem Quiet.innerCall {aead : StreamAead} {writer : EncryptedWriter} (quiet : Quiet aead writer)
    (call : InnerCall) (noBytes : ∀ taken, call ≠ .write taken) (events : List WriteEvent) :
    StaysQuiet aead (pollInner call writer events) := by
  have none : ∀ taken, .write taken ∉ [call] := fun taken member =>
    noBytes taken (List.mem_singleton.mp member).symm
  cases events with
  | nil => exact ⟨quiet, fun taken => List.not_mem_nil⟩
  | cons event events =>
      cases event with
      | pending => exact ⟨quiet, none⟩
      | error => exact ⟨quiet, none⟩
      | ready limit => exact ⟨quiet, none⟩

theorem Quiet.flushThen {aead : StreamAead} {writer : EncryptedWriter} {α : Type}
    (quiet : Quiet aead writer) (events : List WriteEvent)
    (rest : EncryptedWriter → WritePoll α) :
    StaysQuiet aead (flushThen aead writer events rest) := by
  rw [EncryptedWriter.flushThen, startFlushing]
  cases writer.bytes.buf.splitOff 4 with
  | error panic => exact ⟨quiet, fun taken => List.not_mem_nil⟩
  | ok halves =>
      simp only [StreamAead.encryptNextInPlace, if_pos quiet.spent]
      exact ⟨⟨quiet.idle, quiet.spent⟩, fun taken => List.not_mem_nil⟩

theorem Quiet.pollFlush {aead : StreamAead} {writer : EncryptedWriter}
    (quiet : Quiet aead writer) (debug : Bool) (events : List WriteEvent) :
    StaysQuiet aead (writer.pollFlush aead debug events) := by
  rw [EncryptedWriter.pollFlush]
  cases writer.bytes.data with
  | error panic => exact ⟨quiet, fun taken => List.not_mem_nil⟩
  | ok data =>
      by_cases starts : (!writer.isFlushing && !data.isEmpty) = true
      · simp only [if_pos starts]
        exact quiet.flushThen events _
      · simp only [if_neg starts]
        rw [flushOut, quiet.idle]
        exact quiet.innerCall .flush (by simp) events

theorem Quiet.pollShutdown {aead : StreamAead} {writer : EncryptedWriter}
    (quiet : Quiet aead writer) (debug : Bool) (events : List WriteEvent) :
    StaysQuiet aead (writer.pollShutdown aead debug events) := by
  have first := quiet.pollFlush debug events
  rw [EncryptedWriter.pollShutdown]
  rcases (writer.pollFlush aead debug events).andThen_cases (pollInner .shutdown) with
    ⟨_, _, whole⟩ | ⟨_, _, _, whole⟩
  · have second := first.quiet.innerCall .shutdown (by simp)
      (writer.pollFlush aead debug events).events
    rw [whole]
    refine ⟨second.quiet, ?_⟩
    intro taken member
    rcases List.mem_append.mp member with member | member
    · exact first.noWrite taken member
    · exact second.noWrite taken member
  · rw [whole]
    exact ⟨first.quiet, first.noWrite⟩

theorem takeBytes_stays (aead : StreamAead) (debug : Bool) (buf : List UInt8)
    (writer : EncryptedWriter) (quiet : Quiet aead writer) (events : List WriteEvent) :
    Quiet aead (takeBytes aead debug buf writer events).writer := by
  rw [takeBytes]
  cases subUsize debug writer.bytes.spareCapacityLen ciphertextOverhead with
  | error panic => exact quiet
  | ok room =>
      simp only
      cases slice buf 0 (min buf.length room) with
      | error panic => exact quiet
      | ok taken =>
          have next : Quiet aead { writer with bytes := writer.bytes.append taken } :=
            ⟨quiet.idle, quiet.spent⟩
          simp only
          split
          · exact (next.flushThen events _).quiet
          · exact next

theorem Quiet.pollWrite {aead : StreamAead} {writer : EncryptedWriter}
    (quiet : Quiet aead writer) (debug : Bool) (buf : List UInt8) (events : List WriteEvent) :
    Quiet aead (writer.pollWrite aead debug buf events).writer := by
  rw [EncryptedWriter.pollWrite]
  cases debugAssert debug (decide (writer.bytes.buf.capacity = maxChunkSize)) with
  | error panic => exact quiet
  | ok asserted =>
      simp only [quiet.idle, Bool.false_eq_true, if_false]
      exact takeBytes_stays aead debug buf writer quiet events

end EncryptedWriter

namespace Sending

open EncryptedWriter

/-- A call that cannot encrypt leaves no frame in progress. -/
theorem call_invalid_idle (aead : StreamAead) (debug : Bool) (state : Sending)
    (input : WriterCall) (invalid : (state.call aead debug input).1 = .failed .invalidData) :
    (state.call aead debug input).2.writer.isFlushing = false := by
  cases input with
  | pollWrite buf events =>
      have failed : (state.writer.pollWrite aead debug buf events).outcome =
          .failed .invalidData := by
        simp only [call] at invalid
        generalize (state.writer.pollWrite aead debug buf events).outcome = outcome at invalid
        cases outcome with
        | failed kind =>
            cases invalid
            rfl
        | _ => cases invalid
      show (state.writer.pollWrite aead debug buf events).writer.isFlushing = false
      rw [EncryptedWriter.pollWrite] at failed ⊢
      cases asserted : debugAssert debug
          (decide (state.writer.bytes.buf.capacity = maxChunkSize)) with
      | error panic =>
          rw [asserted] at failed
          cases failed
      | ok _ =>
          rw [asserted] at failed
          simp only at failed ⊢
          by_cases flushing : state.writer.isFlushing = true
          · rw [if_pos flushing] at failed ⊢
            exact (pollFlushLocal_draining debug state.writer events).andThen_idle
              (takeBytes_idle aead debug buf _ _) failed
          · rw [if_neg flushing] at failed ⊢
            exact takeBytes_idle aead debug buf _ _ (Bool.eq_false_iff.mpr flushing) failed
  | pollFlush events =>
      exact (pollFlush_draining aead debug state.writer events).idle (.inr invalid)
  | pollShutdown events =>
      refine (pollFlush_draining aead debug state.writer events).andThen_idle ?_ invalid
      intro idle _
      cases (state.writer.pollFlush aead debug events).events with
      | nil => exact idle
      | cons event events => cases event <;> exact idle

/-- In every reachable state the writer is healthy or quiet. -/
theorem run_healthy_or_quiet (aead : StreamAead) (debug : Bool) (first : StreamLE31)
    (calls : List WriterCall) (state final : Sending) (healthy : Healthy aead first state)
    (run : runInputs (Sending.step aead debug) calls state = some final) :
    Healthy aead first final ∨ Quiet aead final.writer := by
  refine runInputs_invariant (Sending.step aead debug)
    (fun after => Healthy aead first after ∨ Quiet aead after.writer)
    ?_ calls state final (Or.inl healthy) run
  intro middle input next before stepRun
  obtain ⟨_, _, same⟩ := (step_eq_some aead debug middle next input).mp stepRun
  subst same
  rcases before with healthy | quiet
  · rcases healthy.after_call debug input with ⟨_, after⟩ | ⟨invalid, after⟩
    · exact Or.inl after
    · exact Or.inr ⟨call_invalid_idle aead debug middle input invalid, after.spent⟩
  · right
    cases input with
    | pollWrite buf events => exact quiet.pollWrite debug buf events
    | pollFlush events => exact (quiet.pollFlush debug events).quiet
    | pollShutdown events => exact (quiet.pollShutdown debug events).quiet

end Sending

namespace EncryptedWriter

/-! ## One logical flush or shutdown -/

inductive FlushOp where
  | flush
  | shutdown
  deriving DecidableEq, Repr

def FlushOp.poll (aead : StreamAead) (debug : Bool) :
    FlushOp → EncryptedWriter → List WriteEvent → WritePoll Unit
  | .flush => pollFlush aead debug
  | .shutdown => pollShutdown aead debug

/-- The polls of an operation, each with the writer that it meets.  A poll that is pending is
followed by another one. -/
inductive Operation (aead : StreamAead) (debug : Bool) (op : FlushOp) :
    EncryptedWriter → List (EncryptedWriter × WritePoll Unit) → Prop where
  | last (writer : EncryptedWriter) (events : List WriteEvent) :
      Operation aead debug op writer [(writer, op.poll aead debug writer events)]
  | again (writer : EncryptedWriter) (events : List WriteEvent)
      (polls : List (EncryptedWriter × WritePoll Unit))
      (pending : (op.poll aead debug writer events).outcome = .pending)
      (later : Operation aead debug op (op.poll aead debug writer events).writer polls) :
      Operation aead debug op writer ((writer, op.poll aead debug writer events) :: polls)

/-- The chunks that an operation sealed. -/
def sealedIn (polls : List (EncryptedWriter × WritePoll Unit)) : List (List UInt8 × List UInt8) :=
  polls.flatMap fun met => met.2.sealed

/-- The calls of the inner writer in an operation. -/
def callsIn (polls : List (EncryptedWriter × WritePoll Unit)) : List InnerCall :=
  polls.flatMap fun met => met.2.calls

/-- At most one frame, with exactly the plaintext that was buffered, and none for nothing; no
byte beyond it and the frame in progress; and no write once shutdown has been called. -/
structure FlushesOnce (writer : EncryptedWriter)
    (polls : List (EncryptedWriter × WritePoll Unit)) : Prop where
  sealed : sealedIn polls = [] ∨
    writer.buffered ≠ [] ∧ ∃ message, sealedIn polls = [(writer.buffered, message)]
  sent : sentBytes (callsIn polls) <+:
    writer.pendingOut ++ frames ((sealedIn polls).map Prod.snd)
  closed : ∀ before after, callsIn polls = before ++ .shutdown :: after →
    ∀ taken, .write taken ∉ after

/-- A frame is in progress, or there is plaintext for one, or none can be started. -/
def Busy (aead : StreamAead) (writer : EncryptedWriter) : Prop :=
  writer.isFlushing = true ∨ writer.buffered ≠ [] ∨
    writer.encryptor.position = aead.counterMax

/-- What one poll of an operation does. -/
inductive OpCase (aead : StreamAead) (writer : EncryptedWriter) (poll : WritePoll Unit) :
    Prop where
  | drains (flushing : writer.Flushing)
      (run : Emits aead writer [] poll.sealed (sentBytes poll.calls) poll.writer)
      (sealed : poll.sealed = [])
  | seals (idle : writer.isFlushing = false)
      (going : writer.encryptor.position ≠ aead.counterMax) (message : List UInt8)
      (run : Emits aead writer [] poll.sealed (sentBytes poll.calls) poll.writer)
      (sealed : poll.sealed = [(writer.buffered, message)])
  | exhausted (quiet : Quiet aead writer) (outcome : poll.outcome = .failed .invalidData)
      (sealed : poll.sealed = []) (calls : poll.calls = [])

theorem pollFlush_opCase (aead : StreamAead) (debug : Bool) (writer : EncryptedWriter)
    (shaped : writer.Shaped) (events : List WriteEvent) :
    OpCase aead writer (writer.pollFlush aead debug events) := by
  rcases shaped with collecting | flushing
  · obtain ⟨contents, small⟩ := collecting.bytes_eq
    rw [collecting.pollFlush_eq]
    rcases collecting.startFlushing_cases aead with
      ⟨spent, next, run, _⟩ | ⟨next, message, run, encrypted, flushing, _⟩
    · rw [flushThen, run]
      exact .exhausted ⟨collecting.idle, spent⟩ rfl rfl rfl
    · have going : writer.encryptor.position ≠ aead.counterMax :=
        ((aead.encryptNextInPlace_eq_some _ _ _ _).mp encrypted).1
      have sealed : (flushThen aead writer events fun next => flushOut debug next events).sealed =
          [(writer.buffered, message)] := by
        rw [flushThen, run]
        simp only [(flushOut_keeps debug next events).sealed]
      rcases flushThen_case aead writer writer.buffered collecting.cursor collecting.idle contents
          (Nat.le_of_lt small) collecting.capacity events
          (fun next => flushOut debug next events)
          (fun next flushing => (flushOut_case aead debug next flushing events).1) with
        ⟨_, _, _, _, spent⟩ | ⟨_, _, pollCase, _⟩
      · exact absurd spent going
      · cases pollCase with
        | emits calm emits => exact .seals collecting.idle going message emits sealed
        | exhausted may => exact may.elim
  · rw [flushing.pollFlush_eq]
    cases (flushOut_case aead debug writer flushing events).1 with
    | emits calm emits =>
        exact .drains flushing emits (flushOut_keeps debug writer events).sealed
    | exhausted may => exact may.elim

theorem OpCase.andShutdown {aead : StreamAead} {writer : EncryptedWriter}
    {first : WritePoll Unit} (opCase : OpCase aead writer first) :
    OpCase aead writer (first.andThen (pollInner .shutdown)) := by
  have sealed : (first.andThen (pollInner .shutdown)).sealed = first.sealed := by
    rw [WritePoll.andThen]
    cases first.outcome with
    | ready value =>
        simp only [(pollInner_keeps .shutdown first.writer first.events).sealed, List.append_nil]
    | _ => rfl
  have emits : ∀ taken, Emits aead writer taken first.sealed (sentBytes first.calls) first.writer →
      Emits aead writer taken (first.andThen (pollInner .shutdown)).sealed
        (sentBytes (first.andThen (pollInner .shutdown)).calls)
        (first.andThen (pollInner .shutdown)).writer := by
    intro taken run
    rw [WritePoll.andThen]
    cases first.outcome with
    | ready value =>
        cases (pollInner_case aead .shutdown rfl first.writer run.shaped first.events).1 with
        | emits calm later =>
            have whole := run.trans later
            rw [nothingTaken, List.append_nil, ← sentBytes_append] at whole
            exact whole
        | exhausted may => exact may.elim
    | _ => exact run
  cases opCase with
  | drains flushing run none => exact .drains flushing (emits _ run) (sealed.trans none)
  | seals idle going message run one =>
      exact .seals idle going message (emits _ run) (sealed.trans one)
  | exhausted quiet outcome none calls =>
      rw [WritePoll.andThen, outcome]
      exact .exhausted quiet rfl none calls

theorem FlushOp.poll_opCase (aead : StreamAead) (debug : Bool) (op : FlushOp)
    (writer : EncryptedWriter) (shaped : writer.Shaped) (events : List WriteEvent) :
    OpCase aead writer (op.poll aead debug writer events) := by
  cases op with
  | flush => exact pollFlush_opCase aead debug writer shaped events
  | shutdown => exact (pollFlush_opCase aead debug writer shaped events).andShutdown

theorem FlushOp.poll_quiet {aead : StreamAead} {writer : EncryptedWriter}
    (quiet : Quiet aead writer) (debug : Bool) (op : FlushOp) (events : List WriteEvent) :
    StaysQuiet aead (op.poll aead debug writer events) ∧
      (op.poll aead debug writer events).sealed = [] := by
  cases op with
  | flush =>
      exact ⟨quiet.pollFlush debug events,
        (pollFlush_keeps aead debug writer quiet.spent events).sealed⟩
  | shutdown =>
      exact ⟨quiet.pollShutdown debug events,
        (pollShutdown_keeps aead debug writer quiet.spent events).sealed⟩

/-- A shutdown is the last call of its poll, and no frame is in progress then. -/
theorem FlushOp.poll_calls (aead : StreamAead) (debug : Bool) (op : FlushOp)
    (writer : EncryptedWriter) (events : List WriteEvent) :
    ∃ front, .shutdown ∉ front ∧ ((op.poll aead debug writer events).calls = front ∨
      (op.poll aead debug writer events).calls = front ++ [.shutdown] ∧
        (op.poll aead debug writer events).writer.isFlushing = false) := by
  have draining := pollFlush_draining aead debug writer events
  refine ⟨(writer.pollFlush aead debug events).calls, draining.noShutdown, ?_⟩
  cases op with
  | flush => exact .inl rfl
  | shutdown =>
      rw [FlushOp.poll, pollShutdown, WritePoll.andThen]
      cases outcome : (writer.pollFlush aead debug events).outcome with
      | ready value =>
          have idle := draining.idle (.inl ⟨value, outcome⟩)
          simp only
          cases (writer.pollFlush aead debug events).events with
          | nil => exact .inl (List.append_nil _)
          | cons event events => cases event <;> exact .inr ⟨rfl, idle⟩
      | _ => exact .inl rfl

/-- After a pending poll nothing is buffered. -/
theorem OpCase.pending {aead : StreamAead} {writer : EncryptedWriter} {poll : WritePoll Unit}
    (opCase : OpCase aead writer poll) (pending : poll.outcome = .pending) :
    poll.writer.Shaped ∧ poll.writer.buffered = [] := by
  cases opCase with
  | drains flushing run sealed =>
      have plain := run.plain
      have none : writer.buffered = [] := by rw [buffered, flushing.flushing]; rfl
      rw [sealed, none] at plain
      exact ⟨run.shaped, plain.symm⟩
  | seals idle going message run sealed =>
      have plain := run.plain
      rw [sealed] at plain
      simp only [List.map_cons, List.map_nil, List.flatten_cons, List.flatten_nil,
        List.append_nil] at plain
      exact ⟨run.shaped, List.append_right_eq_self.mp plain.symm⟩
  | exhausted quiet outcome sealed calls =>
      rw [outcome] at pending
      cases pending

/-! ## Whole operations -/

theorem Operation.quiet {aead : StreamAead} {debug : Bool} {op : FlushOp}
    {writer : EncryptedWriter} {polls : List (EncryptedWriter × WritePoll Unit)}
    (operation : Operation aead debug op writer polls) (quiet : Quiet aead writer) :
    (∀ met ∈ polls, Quiet aead met.1) ∧ sealedIn polls = [] ∧
      ∀ taken, .write taken ∉ callsIn polls := by
  induction operation with
  | last writer events =>
      obtain ⟨stays, sealed⟩ := FlushOp.poll_quiet quiet debug op events
      refine ⟨?_, ?_, ?_⟩
      · intro met member
        rw [List.mem_singleton.mp member]
        exact quiet
      · rw [sealedIn, List.flatMap_cons, sealed]
        rfl
      · intro taken member
        rw [callsIn, List.flatMap_cons, List.flatMap_nil, List.append_nil] at member
        exact stays.noWrite taken member
  | again writer events polls pending later ih =>
      obtain ⟨stays, sealed⟩ := FlushOp.poll_quiet quiet debug op events
      obtain ⟨all, none, noWrite⟩ := ih stays.quiet
      refine ⟨?_, ?_, ?_⟩
      · intro met member
        rcases List.mem_cons.mp member with same | member
        · rw [same]
          exact quiet
        · exact all met member
      · rw [sealedIn, List.flatMap_cons, sealed]
        exact none
      · intro taken member
        rw [callsIn, List.flatMap_cons] at member
        rcases List.mem_append.mp member with member | member
        · exact stays.noWrite taken member
        · exact noWrite taken member

/-- Every poll of an operation that starts in a healthy state. -/
theorem Operation.opCases {aead : StreamAead} {debug : Bool} {op : FlushOp}
    {writer : EncryptedWriter} {polls : List (EncryptedWriter × WritePoll Unit)}
    (operation : Operation aead debug op writer polls) (shaped : writer.Shaped) :
    (∀ met ∈ polls, OpCase aead met.1 met.2) ∧ sentBytes (callsIn polls) <+:
      writer.pendingOut ++ frames ((sealedIn polls).map Prod.snd) := by
  -- what a poll sends is the front of what there is to send
  have sends : ∀ (writer : EncryptedWriter) (poll : WritePoll Unit) (rest : List UInt8)
      (others : List (List UInt8)), OpCase aead writer poll →
      (rest = [] ∨ poll.outcome = .pending ∧ rest <+: poll.writer.pendingOut ++ frames others) →
      sentBytes poll.calls ++ rest <+:
        writer.pendingOut ++ frames (poll.sealed.map Prod.snd ++ others) := by
    intro writer poll rest others opCase behind
    have emitted : ∀ run : Emits aead writer [] poll.sealed (sentBytes poll.calls) poll.writer,
        sentBytes poll.calls ++ rest <+:
          writer.pendingOut ++ frames (poll.sealed.map Prod.snd ++ others) := by
      intro run
      rw [frames_append, ← List.append_assoc, run.wire, List.append_assoc]
      apply (List.prefix_append_right_inj _).mpr
      rcases behind with none | ⟨_, front⟩
      · rw [none]
        exact List.nil_prefix
      · exact front
    cases opCase with
    | drains flushing run sealed => exact emitted run
    | seals idle going message run sealed => exact emitted run
    | exhausted quiet outcome sealed calls =>
        rcases behind with none | ⟨pending, _⟩
        · rw [calls, none]
          exact List.nil_prefix
        · rw [outcome] at pending
          cases pending
  induction operation with
  | last writer events =>
      have opCase := FlushOp.poll_opCase aead debug op writer shaped events
      refine ⟨?_, ?_⟩
      · intro met member
        rw [List.mem_singleton.mp member]
        exact opCase
      · have front := sends writer _ [] [] opCase (.inl rfl)
        simpa [callsIn, sealedIn] using front
  | again writer events polls pending later ih =>
      have opCase := FlushOp.poll_opCase aead debug op writer shaped events
      obtain ⟨all, behind⟩ := ih (opCase.pending pending).1
      refine ⟨?_, ?_⟩
      · intro met member
        rcases List.mem_cons.mp member with same | member
        · rw [same]
          exact opCase
        · exact all met member
      · have front := sends writer _ _ _ opCase (.inr ⟨pending, behind⟩)
        simpa [callsIn, sealedIn] using front

theorem sentBytes_noWrite (calls : List InnerCall) (noWrite : ∀ taken, .write taken ∉ calls) :
    sentBytes calls = [] := by
  induction calls with
  | nil => rfl
  | cons call calls ih =>
      have rest := ih fun taken member => noWrite taken (List.mem_cons_of_mem _ member)
      cases call with
      | write taken => exact absurd List.mem_cons_self (noWrite taken)
      | flush => exact rest
      | shutdown => exact rest

theorem Operation.head {aead : StreamAead} {debug : Bool} {op : FlushOp}
    {writer : EncryptedWriter} {polls : List (EncryptedWriter × WritePoll Unit)}
    (operation : Operation aead debug op writer polls) : ∃ met ∈ polls, met.1 = writer := by
  cases operation with
  | last events => exact ⟨_, List.mem_cons_self, rfl⟩
  | again events polls pending later => exact ⟨_, List.mem_cons_self, rfl⟩

/-- What is behind a shutdown is behind the calls without one. -/
theorem behind_shutdown (front rest before after : List InnerCall) (none : .shutdown ∉ front)
    (split : front ++ rest = before ++ .shutdown :: after) :
    ∃ more, rest = more ++ .shutdown :: after := by
  rcases List.append_eq_append_iff.mp split with ⟨more, _, same⟩ | ⟨more, same, others⟩
  · exact ⟨more, same⟩
  · cases more with
    | nil => exact ⟨[], others.symm⟩
    | cons call more =>
        rw [List.cons_append, List.cons.injEq] at others
        rw [same, ← others.1] at none
        exact absurd (List.mem_append_right _ List.mem_cons_self) none

theorem OpCase.sealed_of_busy {aead : StreamAead} {writer : EncryptedWriter}
    {poll : WritePoll Unit} (opCase : OpCase aead writer poll) (busy : Busy aead writer) :
    poll.sealed = [] ∨
      writer.buffered ≠ [] ∧ ∃ message, poll.sealed = [(writer.buffered, message)] := by
  cases opCase with
  | drains flushing run sealed => exact .inl sealed
  | exhausted quiet outcome sealed calls => exact .inl sealed
  | seals idle going message run sealed =>
      rcases busy with flushing | some_ | spent
      · rw [idle] at flushing
        cases flushing
      · exact .inr ⟨some_, message, sealed⟩
      · exact absurd spent going

/-- Nothing more is sealed, and nothing is written behind a shutdown, as long as every poll
is busy. -/
theorem Operation.busy {aead : StreamAead} {debug : Bool} {op : FlushOp}
    {writer : EncryptedWriter} {polls : List (EncryptedWriter × WritePoll Unit)}
    (operation : Operation aead debug op writer polls) (shaped : writer.Shaped)
    (busy : ∀ met ∈ polls, Busy aead met.1) :
    (sealedIn polls = [] ∨
        writer.buffered ≠ [] ∧ ∃ message, sealedIn polls = [(writer.buffered, message)]) ∧
      ∀ before after, callsIn polls = before ++ .shutdown :: after →
        ∀ taken, .write taken ∉ after := by
  induction operation with
  | last writer events =>
      have opCase := FlushOp.poll_opCase aead debug op writer shaped events
      obtain ⟨front, none, calls⟩ := FlushOp.poll_calls aead debug op writer events
      refine ⟨?_, ?_⟩
      · rw [sealedIn, List.flatMap_cons, List.flatMap_nil, List.append_nil]
        exact opCase.sealed_of_busy (busy _ List.mem_cons_self)
      · intro before after split taken
        rw [callsIn, List.flatMap_cons, List.flatMap_nil, List.append_nil] at split
        rcases calls with calls | ⟨calls, _⟩
        · rw [calls, ← List.append_nil front] at split
          obtain ⟨more, same⟩ := behind_shutdown front [] before after none split
          exact absurd same.symm (by simp)
        · rw [calls] at split
          obtain ⟨more, same⟩ := behind_shutdown front _ before after none split
          have lengths := congrArg List.length same
          simp only [List.length_cons, List.length_nil, List.length_append] at lengths
          rw [List.length_eq_zero_iff.mp (show after.length = 0 by omega)]
          exact List.not_mem_nil
  | again writer events polls pending later ih =>
      have opCase := FlushOp.poll_opCase aead debug op writer shaped events
      obtain ⟨front, none, calls⟩ := FlushOp.poll_calls aead debug op writer events
      obtain ⟨nextShaped, nextEmpty⟩ := opCase.pending pending
      obtain ⟨others, closed⟩ :=
        ih nextShaped fun met member => busy met (List.mem_cons_of_mem _ member)
      have nothing : sealedIn polls = [] := by
        rcases others with none | ⟨some_, _⟩
        · exact none
        · exact absurd nextEmpty some_
      refine ⟨?_, ?_⟩
      · rw [sealedIn, List.flatMap_cons,
          show polls.flatMap (fun met => met.2.sealed) = [] from nothing, List.append_nil]
        exact opCase.sealed_of_busy (busy _ List.mem_cons_self)
      · intro before after split taken
        rw [callsIn, List.flatMap_cons] at split
        rcases calls with calls | ⟨calls, idle⟩
        · rw [calls] at split
          obtain ⟨more, same⟩ := behind_shutdown front _ before after none split
          exact closed more after same taken
        · rw [calls, List.append_assoc] at split
          obtain ⟨more, same⟩ := behind_shutdown front _ before after none split
          -- the shutdown is pending on a writer that has nothing, and yet is busy
          obtain ⟨met, member, sameWriter⟩ := later.head
          have spent : (op.poll aead debug writer events).writer.encryptor.position =
              aead.counterMax := by
            rcases busy met (List.mem_cons_of_mem _ member) with flushing | some_ | spent
            · rw [sameWriter, idle] at flushing
              cases flushing
            · rw [sameWriter] at some_
              exact absurd nextEmpty some_
            · rw [sameWriter] at spent
              exact spent
          obtain ⟨_, _, noWrite⟩ := later.quiet ⟨idle, spent⟩
          intro written
          apply noWrite taken
          cases more with
          | nil =>
              rw [List.singleton_append, List.nil_append, List.cons.injEq] at same
              rw [callsIn, same.2]
              exact written
          | cons call more =>
              rw [List.singleton_append, List.cons_append, List.cons.injEq] at same
              rw [callsIn, same.2]
              exact List.mem_append_right _ (List.mem_cons_of_mem _ written)

/-- A flush or a shutdown does what is expected of it exactly when each of its polls has
something to do. -/
theorem flushesOnce_iff (aead : StreamAead) (debug : Bool) (sharedKey : Key) (nonce : Nonce)
    (calls : List WriterCall) (state : Sending)
    (run : runInputs (Sending.step aead debug) calls (Sending.start sharedKey nonce) = some state)
    (op : FlushOp) (polls : List (EncryptedWriter × WritePoll Unit))
    (operation : Operation aead debug op state.writer polls) :
    FlushesOnce state.writer polls ↔ ∀ met ∈ polls, Busy aead met.1 := by
  rcases Sending.run_healthy_or_quiet aead debug _ calls _ state
    (Sending.start_healthy aead sharedKey nonce) run with healthy | quiet
  · obtain ⟨opCases, sent⟩ := operation.opCases healthy.shaped
    constructor
    · intro once met member
      by_contra lazy
      obtain ⟨idle, empty, going⟩ := not_or.mp lazy |>.imp_right not_or.mp
      rw [not_not] at empty
      cases opCases met member with
      | drains flushing run sealed => exact idle flushing.flushing
      | exhausted quiet outcome sealed calls => exact going quiet.spent
      | seals notFlushing _ message run sealed =>
          have among : (([] : List UInt8), message) ∈ sealedIn polls := by
            apply List.mem_flatMap.mpr
            exact ⟨met, member, by rw [sealed, empty]; exact List.mem_cons_self⟩
          rcases once.sealed with none | ⟨some_, other, one⟩
          · rw [none] at among
            cases among
          · rw [one] at among
            exact some_ (congrArg Prod.fst (List.mem_singleton.mp among)).symm
    · intro busy
      obtain ⟨sealed, closed⟩ := operation.busy healthy.shaped busy
      exact ⟨sealed, sent, closed⟩
  · obtain ⟨all, none, noWrite⟩ := operation.quiet quiet
    constructor
    · intro _ met member
      exact .inr (.inr (all met member).spent)
    · intro _
      refine ⟨.inl none, ?_, ?_⟩
      · rw [sentBytes_noWrite _ noWrite]
        exact List.nil_prefix
      · intro before after split taken written
        apply noWrite taken
        rw [split]
        exact List.mem_append_right _ (List.mem_cons_of_mem _ written)

/-- A new writer that has taken `plain` behind its first header. -/
def collected (plain : List UInt8) : Sending :=
  ⟨⟨.new [] [], (HelperBuf.withCapacity maxChunkSize).append ([0, 0, 0, 0] ++ plain), false⟩,
    plain, [], []⟩

/-- Of one byte that was buffered a flush makes one frame. -/
theorem oneByte_flushesOnce : FlushesOnce (collected [97]).writer
    [((collected [97]).writer,
      (collected [97]).writer.pollFlush paddingAead true [.ready 21, .ready 0])] := by
  apply (flushesOnce_iff paddingAead true [] [] [.pollWrite [97] []] (collected [97]) rfl .flush _
    (.last _ [.ready 21, .ready 0])).mpr
  intro met member
  rw [List.mem_singleton.mp member]
  exact .inr (.inl (by decide))

/-- A flush that follows a flush emits a frame without plaintext. -/
theorem empty_frame : ¬ ∀ calls state op polls,
    runInputs (Sending.step paddingAead true) calls (Sending.start [] []) = some state →
    Operation paddingAead true op state.writer polls → FlushesOnce state.writer polls := by
  intro all
  have once := all [.pollFlush [.ready 0]] (collected []) .flush _ rfl
    (.last _ [.ready 20, .ready 0])
  rcases once.sealed with none | ⟨some_, _⟩
  · exact absurd (congrArg List.length none) (by decide)
  · exact absurd rfl some_

end EncryptedWriter
end Gday.Encryption
