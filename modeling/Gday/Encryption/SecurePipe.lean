import Gday.Encryption.RoundTrip
import Gday.Encryption.WriterProgress
import Gday.Lib.Duplex

/-! # An encrypted connection as a pipe

To its callers a session shows what it accepts, its flushes and what it hands out; polls that
are pending or only look show nothing.  All that it shows a pipe could have shown, so any two
programs can count on a session for what a pipe does. -/
set_option autoImplicit false
namespace Gday.Encryption

open Gday.Lib.AsyncStream Gday.Lib.Duplex Gday.Lib.Machine Gday.Lib.Transition

namespace Session

/-- What the caller sees of a call. -/
def shown (state : Session) (input : SessionCall) (outcome : Outcome (List UInt8))
    (next : Session) : Option Io :=
  match input, outcome with
  | .pollWrite _ _, .ready _ =>
      some (.write (next.sending.accepted.drop state.sending.accepted.length))
  | .pollFlush _, .ready _ => some .flush
  | .read (.pollRead _ _), .ready _ =>
      some (.read (next.reading.handed.drop state.reading.handed.length))
  | .read (.consume _), .ready _ =>
      some (.read (next.reading.handed.drop state.reading.handed.length))
  | _, _ => none

inductive Step (aead : StreamAead) (writerDebug readerDebug : Bool) :
    Session → Option Io → Session → Prop where
  | call (state next : Session) (input : SessionCall)
      (run : state.step aead writerDebug readerDebug input = some next) :
      Step aead writerDebug readerDebug state
        (state.shown input (state.call aead writerDebug readerDebug input).1 next) next

/-- The two sides may be of different builds. -/
def lts (aead : StreamAead) : Lts Session Io where
  Step state label next :=
    ∃ writerDebug readerDebug, Step aead writerDebug readerDebug state label next

/-- The pipe that a session amounts to. -/
structure Carries (aead : StreamAead) (state : Session) (view : Pipe) : Prop where
  sound : ∃ sharedKey nonce, Sound aead sharedKey nonce state
  written : view.written = state.sending.accepted
  flushed : view.flushed = state.flushed.length
  taken : view.taken = state.reading.handed.length

theorem start_carries (aead : StreamAead) (sharedKey : Key) (nonce : Nonce) :
    Carries aead (start sharedKey nonce) .empty :=
  ⟨⟨sharedKey, nonce, start_sound aead sharedKey nonce⟩, rfl, rfl, rfl⟩

/-! ## Each call -/

section Calls

variable {aead : StreamAead} {state next : Session} {view : Pipe}

/-- What is shown of a step is a step of the pipe; where nothing is, the pipe stays as it is. -/
def Follows (aead : StreamAead) (next : Session) (view : Pipe) : Option Io → Prop
  | none => Carries aead next view
  | some act => ∃ after, Pipe.Step none view (some act) after ∧ Carries aead next after

theorem unbounded (length : Nat) : Pipe.Fits none length :=
  fun _ given => absurd given (Option.not_mem_none _)

/-- A call of the writer that accepted these bytes. -/
theorem Carries.write (carries : Carries aead state view) (bytes : List UInt8)
    (sound : ∃ sharedKey nonce, Sound aead sharedKey nonce next)
    (accepted : next.sending.accepted = state.sending.accepted ++ bytes)
    (flushed : next.flushed = state.flushed) (handed : next.reading.handed = state.reading.handed) :
    Follows aead next view (some (.write (next.sending.accepted.drop
      state.sending.accepted.length))) := by
  rw [accepted, List.drop_left]
  refine ⟨_, .write view bytes (unbounded _), sound, ?_, ?_, ?_⟩
  · show view.written ++ bytes = _
    rw [carries.written, accepted]
  · exact carries.flushed.trans (congrArg List.length flushed.symm)
  · exact carries.taken.trans (congrArg List.length handed.symm)

theorem Carries.silent (carries : Carries aead state view)
    (sound : ∃ sharedKey nonce, Sound aead sharedKey nonce next)
    (accepted : next.sending.accepted = state.sending.accepted)
    (flushed : next.flushed = state.flushed) (handed : next.reading.handed = state.reading.handed) :
    Carries aead next view where
  sound := sound
  written := carries.written.trans accepted.symm
  flushed := carries.flushed.trans (congrArg List.length flushed.symm)
  taken := carries.taken.trans (congrArg List.length handed.symm)

/-- A flush that succeeded covers all that was accepted. -/
theorem Carries.flush (carries : Carries aead state view)
    (sound : ∃ sharedKey nonce, Sound aead sharedKey nonce next)
    (accepted : next.sending.accepted = state.sending.accepted)
    (flushed : next.flushed = next.sending.accepted)
    (handed : next.reading.handed = state.reading.handed) :
    Follows aead next view (some .flush) := by
  refine ⟨_, .flush view, sound, carries.written.trans accepted.symm, ?_, ?_⟩
  · show view.written.length = _
    rw [flushed, accepted, carries.written]
  · exact carries.taken.trans (congrArg List.length handed.symm)

/-- What is handed out is the next of what was accepted. -/
theorem Carries.read (invertible : aead.Invertible) (carries : Carries aead state view)
    (bytes : List UInt8) (sound : ∃ sharedKey nonce, Sound aead sharedKey nonce next)
    (accepted : next.sending.accepted = state.sending.accepted)
    (flushed : next.flushed = state.flushed)
    (handed : next.reading.handed = state.reading.handed ++ bytes) :
    Follows aead next view (some (.read (next.reading.handed.drop
      state.reading.handed.length))) := by
  rw [handed, List.drop_left]
  have there : bytes <+: view.queue := by
    obtain ⟨sharedKey, nonce, sound⟩ := sound
    obtain ⟨rest, whole⟩ := sound.handed_start invertible
    rw [handed, accepted, List.append_assoc] at whole
    unfold Pipe.queue
    rw [carries.written, carries.taken, ← whole, List.drop_left]
    exact List.prefix_append ..
  refine ⟨_, .read view bytes there, sound, carries.written.trans accepted.symm, ?_, ?_⟩
  · exact carries.flushed.trans (congrArg List.length flushed.symm)
  · show view.taken + bytes.length = _
    rw [handed, List.length_append, carries.taken]

/-- A poll of the writer that is not ready took nothing. -/
theorem call_pollWrite (aead : StreamAead) (writerDebug readerDebug : Bool) (state : Session)
    (buf : List UInt8) (events : List WriteEvent) :
    ∃ taken, (state.call aead writerDebug readerDebug (.pollWrite buf events)).2.sending.accepted =
        state.sending.accepted ++ taken ∧
      ((∀ value, (state.call aead writerDebug readerDebug (.pollWrite buf events)).1 ≠
        .ready value) → taken = []) := by
  refine ⟨EncryptedWriter.takenFrom buf
    (state.sending.writer.pollWrite aead writerDebug buf events).outcome, rfl, ?_⟩
  intro notReady
  simp only [call, Sending.call] at notReady
  generalize (state.sending.writer.pollWrite aead writerDebug buf events).outcome = outcome
    at notReady
  cases outcome with
  | ready count => exact absurd rfl (notReady [])
  | _ => rfl

theorem call_pollFlush (aead : StreamAead) (writerDebug readerDebug : Bool) (state : Session)
    (events : List WriteEvent) :
    (state.call aead writerDebug readerDebug (.pollFlush events)).2.sending.accepted =
        state.sending.accepted ∧
      ((∃ value, (state.call aead writerDebug readerDebug (.pollFlush events)).1 =
          .ready value) →
        (state.call aead writerDebug readerDebug (.pollFlush events)).2.flushed =
          (state.call aead writerDebug readerDebug (.pollFlush events)).2.sending.accepted) ∧
      ((∀ value, (state.call aead writerDebug readerDebug (.pollFlush events)).1 ≠
          .ready value) →
        (state.call aead writerDebug readerDebug (.pollFlush events)).2.flushed =
          state.flushed) := by
  refine ⟨List.append_nil _, ?_, ?_⟩
  · rintro ⟨value, ready⟩
    cases outcome : (state.sending.writer.pollFlush aead writerDebug events).outcome with
    | ready value => simp [call, Sending.call, outcome, deliver]
    | _ => simp [call, Sending.call, outcome, Outcome.map] at ready
  · intro notReady
    cases outcome : (state.sending.writer.pollFlush aead writerDebug events).outcome with
    | ready value => simp [call, Sending.call, outcome, Outcome.map] at notReady
    | _ => simp [call, Sending.call, outcome]

/-- What a call of the reader gave its caller for good. -/
theorem call_read (aead : StreamAead) (writerDebug readerDebug : Bool) (state : Session)
    (input : ReaderCall) :
    ∃ given, (state.call aead writerDebug readerDebug (.read input)).2.reading.handed =
        state.reading.handed ++ given ∧
      (state.shown (.read input) (state.call aead writerDebug readerDebug (.read input)).1
        (state.call aead writerDebug readerDebug (.read input)).2 = none → given = []) := by
  cases input with
  | pollRead remaining events =>
      refine ⟨EncryptedReader.givenBy (state.reading.reader.pollRead aead readerDebug remaining
        events state.reading.inner).1, rfl, ?_⟩
      intro hidden
      simp only [call, Reading.call] at hidden
      generalize (state.reading.reader.pollRead aead readerDebug remaining events
        state.reading.inner).1 = outcome at hidden ⊢
      cases outcome with
      | ready bytes => cases hidden
      | _ => rfl
  | pollFillBuf events => exact ⟨[], (List.append_nil _).symm, fun _ => rfl⟩
  | consume amt =>
      cases consumed : state.reading.reader.consume amt with
      | error panic => exact ⟨[], by simp [call, Reading.call, consumed], fun _ => rfl⟩
      | ok reader =>
          refine ⟨state.reading.reader.cleartext.unread.take amt,
            by simp [call, Reading.call, consumed], ?_⟩
          intro hidden
          simp [call, Reading.call, consumed, shown] at hidden

theorem shown_read {state next : Session} {input : ReaderCall} {outcome : Outcome (List UInt8)}
    {act : Io} (label : state.shown (.read input) outcome next = some act) :
    act = .read (next.reading.handed.drop state.reading.handed.length) := by
  cases input <;> cases outcome <;> simp_all [shown]

theorem Carries.step (invertible : aead.Invertible) {writerDebug readerDebug : Bool}
    {label : Option Io} (carries : Carries aead state view)
    (step : Step aead writerDebug readerDebug state label next) :
    Follows aead next view label := by
  cases step with
  | call _ input run =>
      obtain ⟨sharedKey, nonce, before⟩ := carries.sound
      have sound : ∃ sharedKey nonce, Sound aead sharedKey nonce next :=
        ⟨sharedKey, nonce, before.step invertible writerDebug readerDebug input run⟩
      obtain ⟨_, _, rfl⟩ := step_eq_some aead writerDebug readerDebug state next input run
      cases input with
      | pollWrite buf events =>
          obtain ⟨taken, accepted, nothing⟩ :=
            call_pollWrite aead writerDebug readerDebug state buf events
          cases outcome : (state.call aead writerDebug readerDebug (.pollWrite buf events)).1 with
          | ready value => exact carries.write taken sound accepted rfl rfl
          | _ =>
              rw [nothing (by rw [outcome]; simp), List.append_nil] at accepted
              exact carries.silent sound accepted rfl rfl
      | pollFlush events =>
          obtain ⟨accepted, covered, unchanged⟩ :=
            call_pollFlush aead writerDebug readerDebug state events
          cases outcome : (state.call aead writerDebug readerDebug (.pollFlush events)).1 with
          | ready value => exact carries.flush sound accepted (covered ⟨value, outcome⟩) rfl
          | _ =>
              exact carries.silent sound accepted (unchanged (by rw [outcome]; simp)) rfl
      | read input =>
          obtain ⟨given, handed, nothing⟩ :=
            call_read aead writerDebug readerDebug state input
          cases label : state.shown (.read input)
              (state.call aead writerDebug readerDebug (.read input)).1
              (state.call aead writerDebug readerDebug (.read input)).2 with
          | none =>
              rw [nothing label, List.append_nil] at handed
              exact carries.silent sound rfl rfl handed
          | some act =>
              rw [shown_read label]
              exact carries.read invertible given sound rfl rfl handed

/-- A poll that finds the wire empty is pending only where all that was flushed is handed out. -/
theorem Sound.pending_handed {sharedKey : Key} {nonce : Nonce} (invertible : aead.Invertible)
    (sound : Sound aead sharedKey nonce state) (debug : Bool) {input : ReaderCall}
    (permitted : state.reading.Permitted input)
    (pending : (state.reading.call aead debug input).1 = .pending)
    (arrived : (state.reading.call aead debug input).2.inner.bytes = []) :
    state.flushed <+: (state.reading.call aead debug input).2.handed := by
  obtain ⟨msgs, more, _, advances, expects⟩ := sound.expects invertible
  obtain ⟨good, intact⟩ := state.reading.good_call aead debug input permitted more _ expects
  obtain ⟨later, handed, further, handedEq⟩ :=
    state.reading.call_advances aead debug input expects.sound
  obtain ⟨noCleartext, hidden, _⟩ := good.pending pending
  have after : Sound aead sharedKey nonce
      { state with reading := (state.reading.call aead debug input).2 } := by
    refine ⟨sound.healthy, ⟨msgs ++ later, ?_⟩, intact, sound.flushed⟩
    show EncryptedReader.Advances aead _ _ _ (state.reading.call aead debug input).2.handed _ _
    rw [handedEq]
    exact advances.trans further
  exact after.flushed_handed invertible noCleartext hidden arrived

theorem step_ready {writerDebug readerDebug : Bool} {input : SessionCall} {value : List UInt8}
    (permitted : state.Permitted input)
    (ready : (state.call aead writerDebug readerDebug input).1 = .ready value) :
    state.step aead writerDebug readerDebug input =
      some (state.call aead writerDebug readerDebug input).2 := by
  unfold Session.step
  rw [if_pos permitted]
  generalize state.call aead writerDebug readerDebug input = result at ready ⊢
  obtain ⟨outcome, after⟩ := result
  cases ready
  rfl

theorem step_pollRead (writerDebug readerDebug : Bool) {remaining : Nat}
    {events : List ReadEvent} {bytes : List UInt8} (permitted : 0 < remaining)
    (ready : (state.reading.call aead readerDebug (.pollRead remaining events)).1 =
      .ready bytes) :
    Step aead writerDebug readerDebug state (some (.read bytes))
      { state with
        reading := (state.reading.call aead readerDebug (.pollRead remaining events)).2 } := by
  have may : state.Permitted (.read (.pollRead remaining events)) := permitted
  have outcome : (state.call aead writerDebug readerDebug
      (.read (.pollRead remaining events))).1 = .ready bytes := ready
  have step := Step.call state _ _ (step_ready may outcome)
  have handed : (state.reading.call aead readerDebug (.pollRead remaining events)).2.handed =
      state.reading.handed ++ EncryptedReader.givenBy
        (state.reading.call aead readerDebug (.pollRead remaining events)).1 := rfl
  simp only [shown, call, ready, handed, EncryptedReader.givenBy, List.drop_left] at step
  exact step

/-- A poll is given no more than it has room for. -/
theorem pollRead_short (aead : StreamAead) (debug : Bool) {remaining : Nat}
    {events : List ReadEvent} {reading : Reading} {bytes : List UInt8}
    (sound : reading.reader.Sound)
    (ready : (reading.call aead debug (.pollRead remaining events)).1 = .ready bytes) :
    bytes.length ≤ remaining := by
  have readCase := EncryptedReader.pollRead_cases aead debug remaining events reading.reader
    reading.inner sound
  have ready : (reading.reader.pollRead aead debug remaining events reading.inner).1 =
      .ready bytes := ready
  generalize EncryptedReader.readIfNecessary aead debug (some remaining) events reading.reader
    reading.inner = before at readCase
  generalize reading.reader.pollRead aead debug remaining events reading.inner = result
    at readCase ready
  cases readCase with
  | endOfStream next rest =>
      cases ready
      exact Nat.zero_le _
  | given next rest cleartext count countEq run =>
      cases ready
      rw [List.length_take, countEq]
      omega
  | stopped outcome next rest notReady =>
      cases outcome with
      | ready eof => exact absurd rfl (notReady eof)
      | _ => cases ready

/-- What was flushed and not yet handed out is there for the asking: a poll for one byte whose
inner reader gives what it has is given the byte. -/
theorem Carries.served (invertible : aead.Invertible) (writerDebug readerDebug : Bool)
    (carries : Carries aead state view) (unread : view.taken < view.flushed) :
    ∃ next byte, Step aead writerDebug readerDebug state (some (.read [byte])) next := by
  obtain ⟨sharedKey, nonce, sound⟩ := carries.sound
  obtain ⟨msgs, more, _, advances, expects⟩ := sound.expects invertible
  have permitted : state.reading.Permitted state.reading.drainCall := Nat.one_pos
  obtain ⟨good, intact⟩ :=
    state.reading.good_call aead readerDebug state.reading.drainCall permitted more _ expects
  have onlyReady : ∀ event ∈ Reading.eventsOf state.reading.drainCall, event = .ready 0 :=
    fun event member => List.eq_of_mem_replicate member
  have enough : (Reading.eventsOf state.reading.drainCall).length =
      state.reading.inner.bytes.length + 1 := List.length_replicate
  have handed : (state.reading.call aead readerDebug state.reading.drainCall).2.handed =
      state.reading.handed ++ EncryptedReader.givenBy
        (state.reading.call aead readerDebug state.reading.drainCall).1 := rfl
  cases outcome : (state.reading.call aead readerDebug state.reading.drainCall).1 with
  | panicked panic => exact absurd outcome (good.calm panic)
  | failed kind => cases onlyReady _ (good.failed kind outcome).2
  | waiting =>
      have := good.waiting outcome
      omega
  | pending =>
      have arrived : (state.reading.call aead readerDebug
          state.reading.drainCall).2.inner.bytes = [] := by
        rcases (good.pending outcome).2.2 with isPending | arrived
        · cases onlyReady _ isPending
        · exact arrived
      have all := sound.pending_handed invertible readerDebug permitted outcome arrived
      rw [handed, outcome] at all
      have same : state.reading.handed ++ EncryptedReader.givenBy .pending =
          state.reading.handed := List.append_nil _
      rw [same] at all
      have fewer := all.length_le
      rw [carries.taken, carries.flushed] at unread
      omega
  | ready bytes =>
      rw [outcome] at handed
      have some_ : bytes ≠ [] := by
        rcases good.ready bytes outcome with some_ | ⟨amt, isConsume⟩
        · exact some_
        · cases isConsume
      have short := pollRead_short aead readerDebug expects.sound outcome
      obtain ⟨byte, rfl⟩ : ∃ byte, bytes = [byte] := List.length_eq_one_iff.mp
        (Nat.le_antisymm short (List.length_pos_iff.mpr some_))
      exact ⟨_, byte, step_pollRead writerDebug readerDebug Nat.one_pos outcome⟩

/-- Some of what is to be written is taken where the inner writer takes everything. -/
theorem Carries.accepts (carries : Carries aead state view) (writerDebug readerDebug : Bool)
    (going : state.sending.writer.encryptor.position ≠ aead.counterMax) {bytes : List UInt8}
    (some_ : bytes ≠ []) :
    ∃ next sent rest, sent ≠ [] ∧ bytes = sent ++ rest ∧
      Step aead writerDebug readerDebug state (some (.write sent)) next := by
  obtain ⟨sharedKey, nonce, sound⟩ := carries.sound
  obtain ⟨events, count, positive, ready⟩ :=
    EncryptedWriter.pollWrite_goes aead writerDebug some_ sound.healthy.shaped going
  have outcome : (state.call aead writerDebug readerDebug (.pollWrite bytes events)).1 =
      .ready [] := by
    simp only [call, Sending.call, ready]
    rfl
  have accepted : (state.call aead writerDebug readerDebug
      (.pollWrite bytes events)).2.sending.accepted =
        state.sending.accepted ++ bytes.take count := by
    show state.sending.accepted ++ EncryptedWriter.takenFrom bytes _ = _
    rw [ready]
    rfl
  have may : state.Permitted (.pollWrite bytes events) := trivial
  have step := Step.call state _ _ (step_ready may outcome)
  simp only [shown, outcome, accepted, List.drop_left] at step
  refine ⟨_, bytes.take count, bytes.drop count, ?_, (List.take_append_drop count bytes).symm,
    step⟩
  intro none_
  rw [List.take_eq_nil_iff] at none_
  rcases none_ with zero | empty
  · omega
  · exact some_ empty

theorem Carries.flushes (carries : Carries aead state view) (writerDebug readerDebug : Bool)
    (going : state.sending.writer.encryptor.position ≠ aead.counterMax) :
    ∃ next, Step aead writerDebug readerDebug state (some .flush) next := by
  obtain ⟨sharedKey, nonce, sound⟩ := carries.sound
  obtain ⟨events, ready⟩ :=
    EncryptedWriter.pollFlush_goes aead writerDebug sound.healthy.shaped going
  have outcome : (state.call aead writerDebug readerDebug (.pollFlush events)).1 = .ready [] := by
    simp only [call, Sending.call, ready]
    rfl
  have may : state.Permitted (.pollFlush events) := trivial
  have step := Step.call state _ _ (step_ready may outcome)
  simp only [shown, outcome] at step
  exact ⟨_, step⟩

end Calls

theorem Carries.given {aead : StreamAead} {state : Session} {view : Pipe}
    (invertible : aead.Invertible) (carries : Carries aead state view) :
    view.given = state.reading.handed := by
  obtain ⟨sharedKey, nonce, sound⟩ := carries.sound
  unfold Pipe.given
  rw [carries.written, carries.taken]
  exact (List.prefix_iff_eq_take.mp (sound.handed_start invertible)).symm

/-- What a caller can count on: the session is the pipe `view`.  Where the inner streams give and
take what they can, the next flushed byte is there for a poll, whatever the builds, and writes
and flushes go through until the encryptor is used up. -/
structure Serves (aead : StreamAead) (state : Session) (view : Pipe) : Prop where
  written : view.written = state.sending.accepted
  given : view.given = state.reading.handed
  flushed : view.flushed = state.flushed.length
  gives : view.taken < view.flushed → ∀ writerDebug readerDebug,
    ∃ next byte, Step aead writerDebug readerDebug state (some (.read [byte])) next
  accepts : state.sending.writer.encryptor.position ≠ aead.counterMax →
    ∀ writerDebug readerDebug, ∀ bytes ≠ [], ∃ next sent rest, sent ≠ [] ∧ bytes = sent ++ rest ∧
      Step aead writerDebug readerDebug state (some (.write sent)) next
  flushes : state.sending.writer.encryptor.position ≠ aead.counterMax →
    ∀ writerDebug readerDebug,
      ∃ next, Step aead writerDebug readerDebug state (some .flush) next

theorem Carries.serves {aead : StreamAead} {state : Session} {view : Pipe}
    (invertible : aead.Invertible) (carries : Carries aead state view) :
    Serves aead state view where
  written := carries.written
  given := carries.given invertible
  flushed := carries.flushed
  gives unread writerDebug readerDebug :=
    carries.served invertible writerDebug readerDebug unread
  accepts going writerDebug readerDebug _ some_ :=
    carries.accepts writerDebug readerDebug going some_
  flushes going writerDebug readerDebug := carries.flushes writerDebug readerDebug going

theorem simulates (aead : StreamAead) (invertible : aead.Invertible) :
    Simulates (lts aead) (Pipe.lts none) (Carries aead) where
  silent _ view _ carries step := by
    obtain ⟨_, _, step⟩ := step
    exact ⟨view, .inl rfl, carries.step invertible step⟩
  seen _ _ _ _ carries step := by
    obtain ⟨_, _, step⟩ := step
    exact carries.step invertible step

/-- A session of each side, with its own nonce, before anything is sent. -/
def startBoth {Program : Type} (programs : Bool → Program) (sharedKey : Key)
    (nonces : Bool → Nonce) : System Program Session :=
  ⟨programs, fun side => start sharedKey (nonces side)⟩

end Session

open Session

/-- Any two programs over encrypted sessions, in any run: they could have done all of it over
pipes, which lose, change and reorder nothing, and each session serves as its pipe. -/
theorem sessions_are_pipes {Program : Type} (program : Lts Program Io) (aead : StreamAead)
    (invertible : aead.Invertible) (programs : Bool → Program) (sharedKey : Key)
    (nonces : Bool → Nonce) {acts : List (Bool × Io)} {state : System Program Session}
    (trace : (System.lts program (lts aead)).Trace (startBoth programs sharedKey nonces) acts
      state) :
    ∃ pipes : Bool → Pipe,
      (System.lts program (Pipe.lts none)).Trace ⟨programs, fun _ => .empty⟩ acts
          ⟨state.programs, pipes⟩ ∧
        ∀ side, Serves aead (state.channels side) (pipes side) := by
  have start : System.Over (Carries aead) (startBoth programs sharedKey nonces)
      ⟨programs, fun _ => .empty⟩ :=
    ⟨rfl, fun side => start_carries aead sharedKey (nonces side)⟩
  obtain ⟨⟨programs', pipes⟩, trace', same, carries⟩ :=
    (System.simulates program (simulates aead invertible)).trace trace start
  have same : state.programs = programs' := same
  subst same
  exact ⟨pipes, trace', fun side => (carries side).serves invertible⟩

/-- Programs that may do anything. -/
def anything : Lts Unit Io := ⟨fun _ _ _ => True⟩

theorem anything_acts {aead : StreamAead} {system : System Unit Session} {side : Bool} {act : Io}
    {session next : Session} (input : SessionCall)
    (here : system.channels (act.stream side) = session)
    (run : session.step aead true true input = some next)
    (label : session.shown input (session.call aead true true input).1 next = some act) :
    (System.lts anything (lts aead)).Step system (some (side, act))
      (system.move side act () next) := by
  subst here
  exact .act system side act () next trivial ⟨true, true, label ▸ .call _ next input run⟩

/-- Three bytes are written, flushed and read. -/
theorem abc_through_pipes : ∃ (state : System Unit Session) (pipes : Bool → Pipe),
    (System.lts anything (Pipe.lts none)).Trace ⟨fun _ => (), fun _ => .empty⟩
        [(true, .write [97, 98, 99]), (true, .flush), (false, .read [97, 98, 99])]
        ⟨state.programs, pipes⟩ ∧
      (pipes true).given = (state.channels true).reading.handed := by
  let first := Session.start [] (List.replicate 8 7)
  let write := SessionCall.pollWrite [97, 98, 99] []
  let flush := SessionCall.pollFlush [.ready 11, .ready 30, .ready 0]
  let read := SessionCall.read (.pollRead 5 [.ready 6, .ready 100, .pending])
  let written := (first.call paddingAead true true write).2
  let flushed := (written.call paddingAead true true flush).2
  let taken := (flushed.call paddingAead true true read).2
  let start := startBoth (fun _ => ()) [] fun _ => List.replicate 8 7
  let one := start.move true (.write [97, 98, 99]) () written
  let two := one.move true .flush () flushed
  let last := two.move false (.read [97, 98, 99]) () taken
  have writes : (System.lts anything (lts paddingAead)).Step start
      (some (true, .write [97, 98, 99])) one :=
    anything_acts write rfl (by decide +kernel) (by decide +kernel)
  have flushes : (System.lts anything (lts paddingAead)).Step one (some (true, .flush)) two :=
    anything_acts flush rfl (by decide +kernel) (by decide +kernel)
  have reads : (System.lts anything (lts paddingAead)).Step two
      (some (false, .read [97, 98, 99])) last :=
    anything_acts read rfl (by decide +kernel) (by decide +kernel)
  obtain ⟨pipes, trace, same⟩ := sessions_are_pipes anything paddingAead paddingAead_invertible
    (fun _ => ()) [] (fun _ => List.replicate 8 7)
    (.seen _ _ _ _ _ writes (.seen _ _ _ _ _ flushes (.seen _ _ _ _ _ reads (.nil last))))
  exact ⟨last, pipes, trace, (same true).given⟩

end Gday.Encryption
