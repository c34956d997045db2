import Gday.Encryption.GoodStream
import Gday.Encryption.Sending

/-! # The writer and the reader of one connection

A `Session` joins a writer and a reader by the wire between them, which keeps every byte
the inner writer took until the inner reader delivers it, and stays open.  Both sides
are polled in any order.  An ideal cipher never runs out of positions, so a session ends
where an encryption fails. -/
set_option autoImplicit false
namespace Gday.Encryption

open Gday.Lib.AsyncStream Gday.Lib.Framing Gday.Lib.Machine

/-- `flushed` is what had been accepted when a flush last succeeded. -/
structure Session where
  sending : Sending
  reading : Reading
  flushed : List UInt8
  deriving DecidableEq

inductive SessionCall where
  | pollWrite (buf : List UInt8) (events : List WriteEvent)
  | pollFlush (events : List WriteEvent)
  | read (input : ReaderCall)
  deriving DecidableEq

namespace Session

/-- Both sides after the writer's nonce went over the wire. -/
def start (sharedKey : Key) (nonce : Nonce) : Session :=
  { sending := Sending.start sharedKey nonce,
    reading := ⟨EncryptedReader.withNonce sharedKey nonce, ⟨[], false⟩, []⟩,
    flushed := [] }

/-- What the inner writer took during a call goes behind the bytes on the wire. -/
def deliver (state : Session) (next : Sending) : Session :=
  { state with
    sending := next,
    reading := { state.reading with
      inner := { state.reading.inner with
        bytes := state.reading.inner.bytes ++ next.sent.drop state.sending.sent.length } } }

/-- What a call returns (of the writer's calls only that they are done), and the session
after it. -/
def call (aead : StreamAead) (writerDebug readerDebug : Bool) (state : Session) :
    SessionCall → Outcome (List UInt8) × Session
  | .pollWrite buf events =>
      let result := state.sending.call aead writerDebug (.pollWrite buf events)
      (result.1.map fun _ => [], state.deliver result.2)
  | .pollFlush events =>
      let result := state.sending.call aead writerDebug (.pollFlush events)
      let flushed := if result.1 = .ready () then result.2.accepted else state.flushed
      (result.1.map fun _ => [], { state.deliver result.2 with flushed := flushed })
  | .read input =>
      let result := state.reading.call aead readerDebug input
      (result.1, { state with reading := result.2 })

def Permitted (state : Session) : SessionCall → Prop
  | .pollWrite _ _ => True
  | .pollFlush _ => True
  | .read input => state.reading.Permitted input

instance (state : Session) : (input : SessionCall) → Decidable (state.Permitted input)
  | .pollWrite _ _ => .isTrue trivial
  | .pollFlush _ => .isTrue trivial
  | .read input => inferInstanceAs (Decidable (state.reading.Permitted input))

def step (aead : StreamAead) (writerDebug readerDebug : Bool) (state : Session)
    (input : SessionCall) : Option Session :=
  if state.Permitted input then
    match state.call aead writerDebug readerDebug input with
    | (.panicked _, _) => none
    | (.waiting, _) => none
    | (.failed .invalidData, _) => none
    | (_, next) => some next
  else none

theorem step_eq_some (aead : StreamAead) (writerDebug readerDebug : Bool) (state next : Session)
    (input : SessionCall) (run : state.step aead writerDebug readerDebug input = some next) :
    state.Permitted input ∧
      (state.call aead writerDebug readerDebug input).1 ≠ .failed .invalidData ∧
        (state.call aead writerDebug readerDebug input).2 = next := by
  rw [step] at run
  by_cases permitted : state.Permitted input
  · rw [if_pos permitted] at run
    refine ⟨permitted, ?_⟩
    generalize state.call aead writerDebug readerDebug input = result at run ⊢
    obtain ⟨outcome, after⟩ := result
    cases outcome with
    | ready value => exact ⟨by simp, Option.some.inj run⟩
    | failed kind =>
        cases kind with
        | invalidData => cases run
        | unexpectedEof => exact ⟨by simp, Option.some.inj run⟩
        | inner => exact ⟨by simp, Option.some.inj run⟩
    | pending => exact ⟨by simp, Option.some.inj run⟩
    | panicked panic => cases run
    | waiting => cases run
  · rw [if_neg permitted] at run
    cases run

/-! ## The invariant -/

/-- The writer is in order, the reader went along what was sent, and what a flush covered
is on the wire. -/
structure Sound (aead : StreamAead) (sharedKey : Key) (nonce : Nonce) (state : Session) :
    Prop where
  healthy : Sending.Healthy aead (StreamLE31.new sharedKey nonce) state.sending
  advances : ∃ msgs, EncryptedReader.Advances aead (EncryptedReader.withNonce sharedKey nonce)
    ⟨state.sending.sent, false⟩ msgs state.reading.handed state.reading.reader state.reading.inner
  intact : state.reading.reader.Intact
  flushed : ∃ before after, state.sending.sealed = before ++ after ∧
    state.flushed = (before.map Prod.fst).flatten ∧
      frames (before.map Prod.snd) <+: state.sending.sent

theorem start_sound (aead : StreamAead) (sharedKey : Key) (nonce : Nonce) :
    Sound aead sharedKey nonce (start sharedKey nonce) where
  healthy := Sending.start_healthy aead sharedKey nonce
  advances := ⟨[], EncryptedReader.Advances.refl aead _ _
    (EncryptedReader.withNonce_sound sharedKey nonce)⟩
  intact := rfl
  flushed := ⟨[], [], rfl, rfl, List.nil_prefix⟩

/-- A fresh reader of what was sent expects every message that was encrypted. -/
theorem Sound.first_expects {aead : StreamAead} (invertible : aead.Invertible) {sharedKey : Key}
    {nonce : Nonce} {state : Session} (sound : Sound aead sharedKey nonce state) :
    EncryptedReader.Expects aead (state.sending.sealed.map Prod.snd)
      state.sending.writer.pendingOut (EncryptedReader.withNonce sharedKey nonce)
      ⟨state.sending.sent, false⟩ where
  stream := sound.healthy.wire
  opens := aead.opens_sealChunks invertible _ _ _ _ sound.healthy.encryptor
  small := aead.sealChunks_lengths _ _ _ _ maxPlain sound.healthy.encryptor sound.healthy.small
  intact := rfl
  sound := EncryptedReader.withNonce_sound sharedKey nonce
  unfinished := rfl

/-- Where the reader stands: the messages it took, and those it still expects. -/
theorem Sound.expects {aead : StreamAead} (invertible : aead.Invertible) {sharedKey : Key}
    {nonce : Nonce} {state : Session} (sound : Sound aead sharedKey nonce state) :
    ∃ msgs more, state.sending.sealed.map Prod.snd = msgs ++ more ∧
      EncryptedReader.Advances aead (EncryptedReader.withNonce sharedKey nonce)
        ⟨state.sending.sent, false⟩ msgs state.reading.handed state.reading.reader
        state.reading.inner ∧
      EncryptedReader.Expects aead more state.sending.writer.pendingOut state.reading.reader
        state.reading.inner := by
  obtain ⟨msgs, advances⟩ := sound.advances
  obtain ⟨more, split, expects⟩ := (sound.first_expects invertible).advance advances sound.intact
  exact ⟨msgs, more, split, advances, expects⟩

/-- The first messages decrypt to the first chunks. -/
theorem Sound.opened {aead : StreamAead} (invertible : aead.Invertible) {sharedKey : Key}
    {nonce : Nonce} {state : Session} (sound : Sound aead sharedKey nonce state)
    (before after : List (List UInt8 × List UInt8))
    (split : state.sending.sealed = before ++ after) :
    (aead.openFrames (StreamLE31.new sharedKey nonce) (before.map Prod.snd)).1 =
      (before.map Prod.fst).flatten := by
  have run := sound.healthy.encryptor
  rw [split] at run
  obtain ⟨middle, firstRun⟩ := aead.sealChunks_front _ _ before after run
  rw [aead.openFrames_sealChunks invertible _ _ _ _ firstRun]

theorem Sound.handed_start {aead : StreamAead} (invertible : aead.Invertible) {sharedKey : Key}
    {nonce : Nonce} {state : Session} (sound : Sound aead sharedKey nonce state) :
    state.reading.handed <+: state.sending.accepted := by
  obtain ⟨msgs, more, split, advances, _⟩ := sound.expects invertible
  have all := sound.opened invertible state.sending.sealed [] (List.append_nil _).symm
  rw [split, aead.openFrames_append] at all
  have plain : state.reading.handed ++ state.reading.reader.cleartext.unread =
      (aead.openFrames (StreamLE31.new sharedKey nonce) msgs).1 := advances.plain
  rw [sound.healthy.plain, ← all, ← plain, List.append_assoc, List.append_assoc]
  exact List.prefix_append ..

/-- Nothing decrypted is left and no frame is complete: all that was flushed and has
arrived was handed out. -/
theorem Sound.flushed_handed {aead : StreamAead} (invertible : aead.Invertible) {sharedKey : Key}
    {nonce : Nonce} {state : Session} (sound : Sound aead sharedKey nonce state)
    (noCleartext : state.reading.reader.cleartext.unread = [])
    (hidden : peekFrame state.reading.reader.ciphertext.unread = none)
    (arrived : state.reading.inner.bytes = []) : state.flushed <+: state.reading.handed := by
  obtain ⟨msgs, more, split, advances, _⟩ := sound.expects invertible
  obtain ⟨before, after, sealedEq, flushedEq, rest, onWire⟩ := sound.flushed
  have sentEq : state.sending.sent =
      frames msgs ++ (state.reading.reader.ciphertext.unread ++ state.reading.inner.bytes) :=
    advances.stream
  have plain : state.reading.handed ++ state.reading.reader.cleartext.unread =
      (aead.openFrames (StreamLE31.new sharedKey nonce) msgs).1 := advances.plain
  rw [arrived, List.append_nil] at sentEq
  rw [noCleartext, List.append_nil] at plain
  have short : ∀ message ∈ state.sending.sealed.map Prod.snd, message.length < 2 ^ 32 :=
    (sound.first_expects invertible).short
  have messages : state.sending.sealed.map Prod.snd =
      before.map Prod.snd ++ after.map Prod.snd := by rw [sealedEq, List.map_append]
  have taken : before.map Prod.snd <+: msgs := by
    rcases List.prefix_or_prefix_of_prefix (messages ▸ List.prefix_append ..)
        (split ▸ List.prefix_append .. : msgs <+: state.sending.sealed.map Prod.snd) with
      shorter | ⟨extra, longer⟩
    · exact shorter
    · cases extra with
      | nil =>
          rw [List.append_nil] at longer
          rw [longer]
      | cons message others =>
          exfalso
          rw [sentEq, ← longer, frames_append, List.append_assoc, List.append_cancel_left_eq,
            frames_cons, List.append_assoc] at onWire
          have isShort : message.length < 2 ^ 32 := by
            apply short
            rw [messages, ← longer]
            simp
          rw [← onWire, peekFrame_frame message _ isShort] at hidden
          cases hidden
  obtain ⟨later, msgsEq⟩ := taken
  rw [flushedEq, plain, ← sound.opened invertible before after sealedEq, ← msgsEq,
    aead.openFrames_append]
  exact List.prefix_append ..

/-- The writer's part of a step. -/
theorem Sound.deliver {aead : StreamAead} {sharedKey : Key} {nonce : Nonce} {state : Session}
    (sound : Sound aead sharedKey nonce state) (debug : Bool) (input : WriterCall)
    (healthy : Sending.Healthy aead (StreamLE31.new sharedKey nonce)
      (state.sending.call aead debug input).2) :
    Sound aead sharedKey nonce (state.deliver (state.sending.call aead debug input).2) := by
  obtain ⟨⟨sealed, sealedEq⟩, ⟨bytes, sentEq⟩, _⟩ := state.sending.call_grows aead debug input
  obtain ⟨msgs, advances⟩ := sound.advances
  obtain ⟨before, after, split, flushedEq, onWire⟩ := sound.flushed
  refine ⟨healthy, ⟨msgs, ?_⟩, sound.intact, before, after ++ sealed, ?_, flushedEq, ?_⟩
  · have extended := advances.extend bytes
    simp only [Session.deliver, sentEq, List.drop_left]
    exact extended
  · show (state.sending.call aead debug input).2.sealed = _
    rw [sealedEq, split, List.append_assoc]
  · show _ <+: (state.sending.call aead debug input).2.sent
    rw [sentEq]
    exact onWire.trans (List.prefix_append ..)

theorem Sound.step {aead : StreamAead} (invertible : aead.Invertible) {sharedKey : Key}
    {nonce : Nonce} {state next : Session} (writerDebug readerDebug : Bool) (input : SessionCall)
    (sound : Sound aead sharedKey nonce state)
    (run : state.step aead writerDebug readerDebug input = some next) :
    Sound aead sharedKey nonce next := by
  obtain ⟨permitted, notInvalid, rfl⟩ :=
    step_eq_some aead writerDebug readerDebug state next input run
  cases input with
  | pollWrite buf events =>
      rcases sound.healthy.after_call writerDebug (.pollWrite buf events) with
        ⟨_, healthy⟩ | ⟨failed, _⟩
      · exact sound.deliver writerDebug _ healthy
      · simp [call, failed, Outcome.map] at notInvalid
  | pollFlush events =>
      rcases sound.healthy.after_call writerDebug (.pollFlush events) with
        ⟨_, healthy⟩ | ⟨failed, _⟩
      · have delivered := sound.deliver writerDebug _ healthy
        simp only [call]
        by_cases ready : (state.sending.call aead writerDebug (.pollFlush events)).1 = .ready ()
        · obtain ⟨acceptedEq, sentEq⟩ := sound.healthy.flushed writerDebug events ready
          rw [if_pos ready]
          exact ⟨delivered.healthy, delivered.advances, delivered.intact, _, [],
            (List.append_nil _).symm, acceptedEq, sentEq ▸ List.prefix_refl _⟩
        · rw [if_neg ready]
          exact delivered
      · simp [call, failed, Outcome.map] at notInvalid
  | read input =>
      obtain ⟨msgs, more, _, advances, expects⟩ := sound.expects invertible
      obtain ⟨_, intact⟩ := state.reading.good_call aead readerDebug input permitted more _ expects
      obtain ⟨later, handed, further, handedEq⟩ :=
        state.reading.call_advances aead readerDebug input expects.sound
      refine ⟨sound.healthy, ⟨msgs ++ later, ?_⟩, intact, sound.flushed⟩
      show EncryptedReader.Advances aead _ _ _ (state.reading.call aead readerDebug input).2.handed
        _ _
      rw [handedEq]
      exact advances.trans further

theorem run_sound {aead : StreamAead} (invertible : aead.Invertible) (sharedKey : Key)
    (nonce : Nonce) (writerDebug readerDebug : Bool) (calls : List SessionCall)
    (state : Session)
    (run : runInputs (Session.step aead writerDebug readerDebug) calls
      (Session.start sharedKey nonce) = some state) : Sound aead sharedKey nonce state :=
  runInputs_invariant (Session.step aead writerDebug readerDebug) (Sound aead sharedKey nonce)
    (fun _ input _ sound stepRun => sound.step invertible writerDebug readerDebug input stepRun)
    calls _ state (start_sound aead sharedKey nonce) run

end Session

/-- The round trip.  In every state of a session what was handed out is a prefix of what
was accepted, and no permitted call panics.  A poll of the reader returns once its inner
reader has answered often enough; it gives bytes, is pending, or passes on an error of
the inner reader.  It is pending only when the inner reader was, or all its bytes came
(as they did where it never was), and then everything that was flushed is handed out. -/
theorem round_trip (aead : StreamAead) (invertible : aead.Invertible) (sharedKey : Key)
    (nonce : Nonce) (writerDebug readerDebug : Bool) (calls : List SessionCall)
    (state : Session)
    (run : runInputs (Session.step aead writerDebug readerDebug) calls
      (Session.start sharedKey nonce) = some state) :
    state.reading.handed <+: state.sending.accepted ∧
      (∀ input panic, state.Permitted input →
        (state.call aead writerDebug readerDebug input).1 ≠ .panicked panic) ∧
      ∀ input outcome next, state.reading.Permitted input →
        state.reading.call aead readerDebug input = (outcome, next) →
          (∀ bytes, outcome = .ready bytes → bytes ≠ [] ∨ ∃ amt, input = .consume amt) ∧
          (∀ kind, outcome = .failed kind → kind = .inner ∧ .error ∈ Reading.eventsOf input) ∧
          (outcome = .waiting →
            (Reading.eventsOf input).length ≤ state.reading.inner.bytes.length) ∧
          (outcome = .pending → .pending ∈ Reading.eventsOf input ∨ next.inner.bytes = []) ∧
          (outcome = .pending → next.inner.bytes = [] →
            state.flushed <+: next.handed ∧
              (state.flushed = state.sending.accepted →
                next.handed = state.sending.accepted)) := by
  have sound := Session.run_sound invertible sharedKey nonce writerDebug readerDebug calls state run
  obtain ⟨msgs, more, _, advances, expects⟩ := sound.expects invertible
  refine ⟨sound.handed_start invertible, ?_, ?_⟩
  · intro input panic permitted
    have writerCalm : ∀ writerCall,
        (state.sending.call aead writerDebug writerCall).1.map (fun _ => ([] : List UInt8)) ≠
          .panicked panic := by
      intro writerCall panicked
      rcases sound.healthy.after_call writerDebug writerCall with ⟨calm, _⟩ | ⟨failed, _⟩
      · cases outcome : (state.sending.call aead writerDebug writerCall).1 with
        | panicked other => exact calm other outcome
        | ready value => simp [outcome, Outcome.map] at panicked
        | failed kind => simp [outcome, Outcome.map] at panicked
        | pending => simp [outcome, Outcome.map] at panicked
        | waiting => simp [outcome, Outcome.map] at panicked
      · simp [failed, Outcome.map] at panicked
    cases input with
    | pollWrite buf events => exact writerCalm (.pollWrite buf events)
    | pollFlush events => exact writerCalm (.pollFlush events)
    | read input =>
        exact (state.reading.good_call aead readerDebug input permitted more _ expects).1.calm panic
  · intro input outcome next permitted called
    obtain ⟨good, intact⟩ :=
      state.reading.good_call aead readerDebug input permitted more _ expects
    obtain ⟨later, handed, further, handedEq⟩ :=
      state.reading.call_advances aead readerDebug input expects.sound
    rw [called] at good intact further handedEq
    refine ⟨good.ready, good.failed, good.waiting, fun pending => (good.pending pending).2.2, ?_⟩
    intro pending arrived
    have after : Session.Sound aead sharedKey nonce { state with reading := next } := by
      refine ⟨sound.healthy, ⟨msgs ++ later, ?_⟩, intact, sound.flushed⟩
      show EncryptedReader.Advances aead _ _ _ next.handed _ _
      rw [handedEq]
      exact advances.trans further
    obtain ⟨noCleartext, hidden, _⟩ := good.pending pending
    have all : state.flushed <+: next.handed :=
      after.flushed_handed invertible noCleartext hidden arrived
    refine ⟨all, ?_⟩
    intro nothingSince
    rw [nothingSince] at all
    exact (after.handed_start invertible).eq_of_length_le all.length_le

/-- Three bytes are written, flushed in two pieces and read; the next poll is pending, and
nothing is missing. -/
theorem round_trip_abc :
    ∃ state next,
      runInputs (Session.step paddingAead true true)
          [.pollWrite [97, 98, 99] [], .pollFlush [.ready 11, .ready 30, .ready 0],
            .read (.pollFillBuf [.ready 6, .ready 100, .pending]), .read (.consume 1),
            .read (.pollRead 5 [.pending])]
          (Session.start [] (List.replicate 8 7)) = some state ∧
        state.reading.call paddingAead true (.pollRead 5 [.ready 0]) = (.pending, next) ∧
          next.handed = state.sending.accepted := by
  have observed : (runInputs (Session.step paddingAead true true)
      [.pollWrite [97, 98, 99] [], .pollFlush [.ready 11, .ready 30, .ready 0],
        .read (.pollFillBuf [.ready 6, .ready 100, .pending]), .read (.consume 1),
        .read (.pollRead 5 [.pending])]
      (Session.start [] (List.replicate 8 7))).map (fun state =>
        (decide (state.flushed = state.sending.accepted),
          (state.reading.call paddingAead true (.pollRead 5 [.ready 0])).1,
          (state.reading.call paddingAead true (.pollRead 5 [.ready 0])).2.inner.bytes)) =
        some (true, .pending, []) := by decide +kernel
  obtain ⟨state, run, seen⟩ := Option.map_eq_some_iff.mp observed
  rw [Prod.mk.injEq, Prod.mk.injEq, decide_eq_true_iff] at seen
  obtain ⟨nothingSince, pending, arrived⟩ := seen
  refine ⟨state, _, run, Prod.ext pending rfl, ?_⟩
  have whole := (round_trip paddingAead paddingAead_invertible [] (List.replicate 8 7) true true _
    state run).2.2 (.pollRead 5 [.ready 0]) _ _ (show 0 < 5 by decide) rfl
  exact (whole.2.2.2.2 pending arrived).2 nothingSince

end Gday.Encryption
