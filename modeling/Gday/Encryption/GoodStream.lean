import Gday.Encryption.Reading

/-! # The reader on a stream of good frames

`Expects` says that what the reader has not used yet, what is still on the wire and what
has yet to reach it are together the frames of messages that decrypt one after the
other.  No poll then fails by itself, and a poll that hands out nothing has decrypted
every frame that arrived. -/
set_option autoImplicit false
namespace Gday.Encryption

open Gday.Lib.AsyncStream Gday.Lib.Framing Gday.Lib.Machine

theorem StreamAead.opens_append (aead : StreamAead) (stream : StreamLE31)
    (first second : List (List UInt8)) :
    aead.Opens stream (first ++ second) ↔
      aead.Opens stream first ∧ aead.Opens (aead.openFrames stream first).2 second := by
  induction first generalizing stream with
  | nil => simp [Opens, openFrames]
  | cons sealed rest ih =>
      simp only [List.cons_append, Opens, openFrames]
      constructor
      · rintro ⟨plain, next, decrypted, later⟩
        obtain ⟨restOpens, secondOpens⟩ := (ih next).mp later
        simp only [decrypted]
        exact ⟨⟨plain, next, rfl, restOpens⟩, secondOpens⟩
      · rintro ⟨⟨plain, next, decrypted, restOpens⟩, secondOpens⟩
        simp only [decrypted] at secondOpens
        exact ⟨plain, next, decrypted, (ih next).mpr ⟨restOpens, secondOpens⟩⟩

theorem StreamAead.opens_sealChunks (aead : StreamAead) (invertible : aead.Invertible)
    (stream final : StreamLE31) (chunks sealed : List (List UInt8))
    (run : aead.sealChunks stream chunks = some (sealed, final)) : aead.Opens stream sealed := by
  induction chunks generalizing stream sealed with
  | nil =>
      obtain ⟨rfl, _⟩ := (aead.sealChunks_nil stream final sealed).mp run
      exact trivial
  | cons chunk rest ih =>
      obtain ⟨message, next, others, headRun, tailRun, rfl⟩ :=
        aead.sealChunks_cons stream final chunk rest sealed run
      obtain ⟨going, messageEq, nextEq⟩ :=
        (aead.encryptNextInPlace_eq_some stream next chunk message).mp headRun
      refine ⟨chunk, next, ?_, ih next others tailRun⟩
      rw [aead.decryptNextInPlace_eq_some, messageEq]
      exact ⟨going, invertible _ _ _ _, nextEq⟩

namespace EncryptedReader

/-- The longest message that `EncryptedWriter` puts into a frame. -/
def maxMessage : Nat := maxChunkSize - 4

structure Expects (aead : StreamAead) (coming : List (List UInt8)) (tail : List UInt8)
    (reader : EncryptedReader) (inner : ByteStream) : Prop where
  stream : reader.ciphertext.unread ++ inner.bytes ++ tail = frames coming
  opens : aead.Opens reader.decryptor coming
  small : ∀ message ∈ coming, message.length ≤ maxMessage
  intact : reader.Intact
  sound : reader.Sound
  unfinished : inner.closed = false

theorem Expects.short {aead : StreamAead} {coming : List (List UInt8)} {tail : List UInt8}
    {reader : EncryptedReader} {inner : ByteStream}
    (expects : Expects aead coming tail reader inner) :
    ∀ message ∈ coming, message.length < 2 ^ 32 := by
  intro message member
  have := expects.small message member
  rw [maxMessage, maxChunkSize] at this
  omega

/-- What the reader takes off a good stream are its first frames. -/
theorem Expects.taken {aead : StreamAead} {coming msgs : List (List UInt8)}
    {tail handed : List UInt8} {reader next : EncryptedReader} {inner rest : ByteStream}
    (expects : Expects aead coming tail reader inner)
    (advances : Advances aead reader inner msgs handed next rest) :
    ∃ more, coming = msgs ++ more ∧
      next.ciphertext.unread ++ rest.bytes ++ tail = frames more := by
  have split : frames msgs ++ (next.ciphertext.unread ++ rest.bytes ++ tail) = frames coming := by
    rw [← expects.stream, advances.stream, List.append_assoc, List.append_assoc, List.append_assoc]
  exact frames_split msgs coming _ advances.short expects.short split

theorem Expects.advance {aead : StreamAead} {coming msgs : List (List UInt8)}
    {tail handed : List UInt8} {reader next : EncryptedReader} {inner rest : ByteStream}
    (expects : Expects aead coming tail reader inner)
    (advances : Advances aead reader inner msgs handed next rest) (intact : next.Intact) :
    ∃ more, coming = msgs ++ more ∧ Expects aead more tail next rest := by
  obtain ⟨more, rfl, stream⟩ := expects.taken advances
  obtain ⟨_, opens⟩ := (aead.opens_append _ _ _).mp expects.opens
  refine ⟨more, rfl, ?_⟩
  exact
    { stream := stream
      opens := by rw [advances.decryptor]; exact opens
      small := fun message member =>
        expects.small message (List.mem_append_right _ member)
      intact := intact
      sound := advances.sound
      unfinished := advances.closed.trans expects.unfinished }

/-- No frame of a good stream fails to decrypt. -/
theorem Expects.no_invalid {aead : StreamAead} {coming init : List (List UInt8)}
    {bad tail handed : List UInt8} {reader next : EncryptedReader} {inner rest : ByteStream}
    (expects : Expects aead coming tail reader inner)
    (advances : Advances aead reader inner (init ++ [bad]) handed next rest) :
    aead.decryptNextInPlace (aead.openFrames reader.decryptor init).2 bad ≠ none := by
  obtain ⟨more, rfl, _⟩ := expects.taken advances
  obtain ⟨first, _⟩ := (aead.opens_append _ _ _).mp expects.opens
  obtain ⟨_, last⟩ := (aead.opens_append _ _ _).mp first
  obtain ⟨plain, stream, decrypted, _⟩ := last
  rw [decrypted]
  simp

/-- A full buffer that shows no frame has used at least half of its bytes. -/
theorem Expects.wraps {aead : StreamAead} {coming msgs : List (List UInt8)}
    {tail handed : List UInt8} {reader next : EncryptedReader} {inner rest : ByteStream}
    (expects : Expects aead coming tail reader inner)
    (advances : Advances aead reader inner msgs handed next rest)
    (hidden : peekFrame next.ciphertext.unread = none)
    (full : next.ciphertext.spareCapacityLen = 0) :
    next.ciphertext.unread.length ≤ next.ciphertext.cursor := by
  obtain ⟨more, rfl, stream⟩ := expects.taken advances
  have sum := next.ciphertext.spare_add_len
  have lengths := next.ciphertext.unread_length
  rw [full, advances.sound.ciphertextCapacity, maxChunkSize] at sum
  cases more with
  | nil =>
      have gone : next.ciphertext.unread = [] := by
        have := List.append_eq_nil_iff.mp (stream.trans frames_nil)
        exact (List.append_eq_nil_iff.mp this.1).1
      rw [gone]
      exact Nat.zero_le _
  | cons message others =>
      have small := expects.small message (by simp)
      have short := expects.short message (by simp)
      rw [frames_cons, List.append_assoc] at stream
      have below := length_lt_of_peekFrame_none _ _ message _ short stream hidden
      rw [maxMessage, maxChunkSize] at small
      omega

/-- With no cleartext left there is room for every message. -/
theorem Expects.fits {aead : StreamAead} {coming : List (List UInt8)} {tail : List UInt8}
    {reader : EncryptedReader} {inner : ByteStream}
    (expects : Expects aead coming tail reader inner) (settled : reader.Settled)
    (none : reader.cleartext.unread = []) :
    peekFrame reader.ciphertext.unread = Option.none ∧ reader.ciphertext.spareCapacityLen ≠ 0 := by
  rcases settled with hidden | ⟨msg, shown, tight⟩
  · exact hidden
  · exfalso
    have room := expects.sound.cleartext.spare_of_unread_nil none
    have capacity : reader.cleartext.buf.capacity = maxChunkSize := expects.intact
    have stream := expects.stream
    cases coming with
    | nil =>
        have gone : reader.ciphertext.unread = [] := by
          have := List.append_eq_nil_iff.mp (stream.trans frames_nil)
          exact (List.append_eq_nil_iff.mp this.1).1
        rw [gone] at shown
        cases shown
    | cons message others =>
        rw [frames_cons, List.append_assoc] at stream
        obtain ⟨rfl, _⟩ := peekFrame_of_split _ _ message msg _
          (expects.short message (List.mem_cons_self ..)) stream shown
        have small := expects.small msg (List.mem_cons_self ..)
        rw [room, capacity] at tight
        rw [maxMessage] at small
        omega

/-! ## One poll -/

/-- The reader went on along the good stream. -/
def Reaches (aead : StreamAead) (coming : List (List UInt8)) (tail : List UInt8)
    (reader : EncryptedReader) (inner : ByteStream) (next : EncryptedReader)
    (rest : ByteStream) : Prop :=
  ∃ msgs more, coming = msgs ++ more ∧ Advances aead reader inner msgs [] next rest ∧
    Expects aead more tail next rest

theorem Reaches.refl {aead : StreamAead} {coming : List (List UInt8)} {tail : List UInt8}
    {reader : EncryptedReader} {inner : ByteStream}
    (expects : Expects aead coming tail reader inner) :
    Reaches aead coming tail reader inner reader inner :=
  ⟨[], coming, rfl, Advances.refl aead reader inner expects.sound, expects⟩

theorem Reaches.advance {aead : StreamAead} {coming msgs : List (List UInt8)}
    {tail : List UInt8} {reader middle next : EncryptedReader} {inner between rest : ByteStream}
    (reaches : Reaches aead coming tail reader inner middle between)
    (advances : Advances aead middle between msgs [] next rest)
    (capacity : next.cleartext.buf.capacity = middle.cleartext.buf.capacity) :
    Reaches aead coming tail reader inner next rest := by
  obtain ⟨first, more, rfl, before, expects⟩ := reaches
  obtain ⟨others, rfl, after⟩ := expects.advance advances (capacity.trans expects.intact)
  exact ⟨first ++ msgs, others, (List.append_assoc ..).symm, before.trans advances, after⟩

theorem Expects.decryptAllFullChunks {aead : StreamAead} {coming : List (List UInt8)}
    {tail : List UInt8} {reader : EncryptedReader} {inner : ByteStream}
    (expects : Expects aead coming tail reader inner) :
    ∃ next, EncryptedReader.decryptAllFullChunks aead reader = .ok (next, .ok ()) ∧
      Reaches aead coming tail reader inner next inner ∧ next.Settled := by
  have decrypts := decryptAllFullChunks_cases aead reader expects.sound
  generalize EncryptedReader.decryptAllFullChunks aead reader = result at decrypts ⊢
  cases decrypts with
  | wrapPanic msgs next advances hidden full beyond =>
      have := expects.wraps (advances inner) hidden full
      omega
  | settled msgs next advances opens capacity settled =>
      exact ⟨next, rfl, (Reaches.refl expects).advance (advances inner) capacity, settled⟩
  | invalid init bad next advances opens failed capacity =>
      exact absurd failed (expects.no_invalid (advances inner))

/-- How a poll of `read_if_necessary` ends on a good stream. -/
structure GoodPoll (events : List ReadEvent) (inner : ByteStream) (outcome : Outcome Bool)
    (next : EncryptedReader) (rest : ByteStream) : Prop where
  calm : ∀ panic, outcome ≠ .panicked panic
  ready : ∀ eof, outcome = .ready eof → eof = false ∧ next.cleartext.unread ≠ []
  pending : outcome = .pending → next.cleartext.unread = [] ∧
    peekFrame next.ciphertext.unread = none ∧ (.pending ∈ events ∨ rest.bytes = [])
  failed : ∀ kind, outcome = .failed kind → kind = .inner ∧ .error ∈ events
  waiting : outcome = .waiting → events.length ≤ inner.bytes.length

/-- The state of the loop after some of its `all` events: each of them delivered a byte. -/
structure GoodRound (aead : StreamAead) (coming : List (List UInt8)) (tail : List UInt8)
    (reader : EncryptedReader) (inner : ByteStream) (all events : List ReadEvent)
    (next : EncryptedReader) (rest : ByteStream) : Prop where
  reaches : Reaches aead coming tail reader inner next rest
  settled : next.Settled
  delivered : all.length + rest.bytes.length ≤ events.length + inner.bytes.length
  suffix : ∀ event ∈ events, event ∈ all

theorem GoodRound.step {aead : StreamAead} {coming : List (List UInt8)} {tail : List UInt8}
    {reader middle : EncryptedReader} {inner between : ByteStream} {all events : List ReadEvent}
    {event : ReadEvent} {result : Option (Outcome Bool) × EncryptedReader × ByteStream}
    (before : GoodRound aead coming tail reader inner all (event :: events) middle between)
    (stepCase : StepCase aead event middle between result) :
    RoundEnds (GoodRound aead coming tail reader inner all events)
      (fun outcome next rest => Reaches aead coming tail reader inner next rest ∧
        GoodPoll all inner outcome next rest) result := by
  obtain ⟨_, more, _, _, expects⟩ := before.reaches
  have member : event ∈ all := before.suffix event (List.mem_cons_self ..)
  cases stepCase with
  | innerError refused =>
      refine ⟨before.reaches, by simp, by simp, by simp, ?_, by simp⟩
      intro kind same
      cases same
      exact ⟨rfl, refused ▸ member⟩
  | nothing stalled empty =>
      refine ⟨before.reaches, by simp, by simp, ?_, by simp, by simp⟩
      intro _
      refine ⟨empty, (expects.fits before.settled empty).1, ?_⟩
      rcases stalled with isPending | ⟨gone, _⟩
      · exact Or.inl (isPending ▸ member)
      · exact Or.inr gone
  | leftover stalled some_ =>
      refine ⟨before.reaches, by simp, ?_, by simp, by simp, by simp⟩
      intro eof same
      cases same
      exact ⟨rfl, some_⟩
  | endOfStream gone closed sealed clear =>
      rw [expects.unfinished] at closed
      cases closed
  | wrapPanic bytes next rest received msgs final advances hidden full beyond =>
      have := expects.wraps advances hidden full
      omega
  | invalid bytes next rest received init bad final advances opens failed capacity =>
      exact absurd failed (expects.no_invalid advances)
  | continued bytes next rest received msgs final advances opens capacity settled =>
      refine ⟨before.reaches.advance advances capacity, settled, ?_, ?_⟩
      · have nonempty : bytes ≠ [] := by
          intro none
          have closed := (received.ended none).2
          rw [expects.unfinished] at closed
          cases closed
        have positive := List.length_pos_iff.mpr nonempty
        have total := congrArg List.length received.taken
        have delivered := before.delivered
        rw [List.length_append] at total
        rw [List.length_cons] at delivered
        omega
      · intro other isMember
        exact before.suffix other (List.mem_cons_of_mem _ isMember)

/-- One call of `read_if_necessary` on a good stream. -/
theorem Expects.readIfNecessary {aead : StreamAead} {coming : List (List UInt8)}
    {tail : List UInt8} {reader : EncryptedReader} {inner : ByteStream}
    (expects : Expects aead coming tail reader inner) (debug : Bool) (wanted : Option Nat)
    (positive : ∀ amount, wanted = some amount → 0 < amount) (events : List ReadEvent) :
    Reaches aead coming tail reader inner
        (readIfNecessary aead debug wanted events reader inner).2.1
        (readIfNecessary aead debug wanted events reader inner).2.2 ∧
      GoodPoll events inner (readIfNecessary aead debug wanted events reader inner).1
        (readIfNecessary aead debug wanted events reader inner).2.1
        (readIfNecessary aead debug wanted events reader inner).2.2 := by
  obtain ⟨next, run, reaches, settled⟩ := expects.decryptAllFullChunks
  have capacity : reader.cleartext.buf.capacity = maxChunkSize := expects.intact
  have amount : 0 < reader.bytesAmount wanted := by
    cases wanted with
    | none =>
        rw [bytesAmount, capacity]
        decide
    | some amount =>
        have := positive amount rfl
        rw [bytesAmount, capacity, maxChunkSize]
        omega
  rw [EncryptedReader.readIfNecessary, capacity, expects.sound.ciphertextCapacity]
  simp only [decide_true, debugAssert_true, run]
  refine readLoop_rule aead debug (reader.bytesAmount wanted)
    (GoodRound aead coming tail reader inner events)
    (fun outcome next rest => Reaches aead coming tail reader inner next rest ∧
      GoodPoll events inner outcome next rest)
    ?_ ?_ ?_ ?_ events next inner ⟨reaches, settled, Nat.le_refl _, fun _ member => member⟩
  · intro _ middle between round
    obtain ⟨_, _, _, _, after⟩ := round.reaches
    exact after.sound
  · intro _ middle between round enough
    obtain ⟨_, _, _, _, after⟩ := round.reaches
    have some_ : middle.cleartext.unread ≠ [] := by
      intro none
      rcases enough with satisfied | full
      · rw [none, List.length_nil] at satisfied
        omega
      · exact (after.fits round.settled none).2 full
    rw [finishRead_eq debug middle after.sound, if_neg (fun both => some_ both.2)]
    refine ⟨round.reaches, by simp, ?_, by simp, by simp, by simp⟩
    intro eof same
    cases same
    exact ⟨rfl, some_⟩
  · intro middle between round _ _
    refine ⟨round.reaches, by simp, by simp, by simp, by simp, ?_⟩
    intro _
    have := round.delivered
    rw [List.length_nil] at this
    omega
  · intro event later middle between result round _ _ stepCase
    exact round.step stepCase

end EncryptedReader

/-! ## One call -/

namespace Reading

def eventsOf : ReaderCall → List ReadEvent
  | .pollRead _ events => events
  | .pollFillBuf events => events
  | .consume _ => []

/-- How a call ends on a good stream. -/
structure GoodCall (input : ReaderCall) (inner : ByteStream) (outcome : Outcome (List UInt8))
    (next : Reading) : Prop where
  calm : ∀ panic, outcome ≠ .panicked panic
  ready : ∀ bytes, outcome = .ready bytes → bytes ≠ [] ∨ ∃ amt, input = .consume amt
  pending : outcome = .pending → next.reader.cleartext.unread = [] ∧
    peekFrame next.reader.ciphertext.unread = none ∧
      (.pending ∈ eventsOf input ∨ next.inner.bytes = [])
  failed : ∀ kind, outcome = .failed kind → kind = .inner ∧ .error ∈ eventsOf input
  waiting : outcome = .waiting → (eventsOf input).length ≤ inner.bytes.length

open EncryptedReader in
/-- Every permitted call on a good stream ends well and keeps the buffers intact. -/
theorem good_call (aead : StreamAead) (debug : Bool) (state : Reading) (input : ReaderCall)
    (permitted : state.Permitted input) (coming : List (List UInt8)) (tail : List UInt8)
    (expects : Expects aead coming tail state.reader state.inner) :
    GoodCall input state.inner (state.call aead debug input).1 (state.call aead debug input).2 ∧
      (state.call aead debug input).2.reader.Intact := by
  cases input with
  | pollRead remaining events =>
      obtain ⟨⟨_, _, _, _, after⟩, good⟩ := expects.readIfNecessary debug (some remaining)
        (fun amount same => Option.some.inj same ▸ permitted) events
      have readCase := pollRead_cases aead debug remaining events state.reader state.inner
        expects.sound
      simp only [call]
      generalize state.reader.pollRead aead debug remaining events state.inner = result
        at readCase ⊢
      generalize EncryptedReader.readIfNecessary aead debug (some remaining) events state.reader
        state.inner = before at good after readCase
      cases readCase with
      | endOfStream next rest => exact absurd (good.ready true rfl).1 (by simp)
      | given next rest cleartext count countEq run =>
          have some_ : next.cleartext.unread ≠ [] := (good.ready false rfl).2
          have within : count ≤ next.cleartext.unread.length := by
            rw [countEq]
            exact Nat.min_le_right ..
          obtain ⟨other, otherRun, _, _, capacity⟩ :=
            next.cleartext.advanceCursor_spec after.sound.cleartext count within
          rw [run, Except.ok.injEq] at otherRun
          refine ⟨⟨by simp, ?_, by simp, by simp, by simp⟩, ?_⟩
          · intro bytes same
            rw [Outcome.ready.injEq] at same
            left
            rw [← same]
            intro none
            have positive := List.length_pos_iff.mpr some_
            have lengths := congrArg List.length none
            have remainingPositive : 0 < remaining := permitted
            rw [List.length_take, List.length_nil] at lengths
            omega
          · show cleartext.buf.capacity = maxChunkSize
            rw [otherRun, capacity]
            exact after.intact
      | stopped outcome next rest notReady =>
          refine ⟨?_, after.intact⟩
          cases outcome with
          | ready eof => exact absurd rfl (notReady eof)
          | failed kind =>
              refine ⟨by simp [Outcome.map], by simp [Outcome.map], by simp [Outcome.map], ?_,
                by simp [Outcome.map]⟩
              intro other same
              cases same
              exact good.failed kind rfl
          | pending =>
              exact ⟨by simp [Outcome.map], by simp [Outcome.map], fun _ => good.pending rfl,
                by simp [Outcome.map], by simp [Outcome.map]⟩
          | panicked panic => exact absurd rfl (good.calm panic)
          | waiting =>
              exact ⟨by simp [Outcome.map], by simp [Outcome.map], by simp [Outcome.map],
                by simp [Outcome.map], fun _ => good.waiting rfl⟩
  | pollFillBuf events =>
      obtain ⟨⟨_, _, _, _, after⟩, good⟩ := expects.readIfNecessary debug none
        (by simp) events
      simp only [call, pollFillBuf_eq aead debug events _ _ expects.sound]
      generalize EncryptedReader.readIfNecessary aead debug none events state.reader
        state.inner = before at good after
      obtain ⟨outcome, next, rest⟩ := before
      refine ⟨?_, after.intact⟩
      cases outcome with
      | ready eof =>
          obtain ⟨rfl, some_⟩ := good.ready eof rfl
          refine ⟨by simp [Outcome.map], ?_, by simp [Outcome.map], by simp [Outcome.map],
            by simp [Outcome.map]⟩
          intro bytes same
          cases same
          exact Or.inl some_
      | failed kind =>
          refine ⟨by simp [Outcome.map], by simp [Outcome.map], by simp [Outcome.map], ?_,
            by simp [Outcome.map]⟩
          intro other same
          cases same
          exact good.failed kind rfl
      | pending =>
          exact ⟨by simp [Outcome.map], by simp [Outcome.map], fun _ => good.pending rfl,
            by simp [Outcome.map], by simp [Outcome.map]⟩
      | panicked panic => exact absurd rfl (good.calm panic)
      | waiting =>
          exact ⟨by simp [Outcome.map], by simp [Outcome.map], by simp [Outcome.map],
            by simp [Outcome.map], fun _ => good.waiting rfl⟩
  | consume amt =>
      rcases consume_cases aead state.reader state.inner expects.sound amt with
        ⟨beyond, _⟩ | ⟨next, _, run, capacity, _⟩
      · have within : amt ≤ state.reader.cleartext.unread.length := permitted
        omega
      · simp only [call, run]
        exact ⟨⟨by simp, fun _ _ => Or.inr ⟨amt, rfl⟩, by simp, by simp, by simp⟩,
          capacity.trans expects.intact⟩

/-- The plaintext that a good stream still holds for the caller. -/
def remaining (aead : StreamAead) (coming : List (List UInt8)) (state : Reading) : List UInt8 :=
  state.reader.cleartext.unread ++ (aead.openFrames state.reader.decryptor coming).1

/-- A poll for one byte whose inner reader gives bytes as long as it has any. -/
def drainCall (state : Reading) : ReaderCall :=
  .pollRead 1 (List.replicate (state.inner.bytes.length + 1) (.ready 0))

/-- Such a poll gives bytes, unless there is nothing left to give. -/
theorem drainCall_cases (aead : StreamAead) (debug : Bool) (state : Reading)
    (coming : List (List UInt8))
    (expects : EncryptedReader.Expects aead coming [] state.reader state.inner) :
    remaining aead coming state = [] ∨
      ∃ next bytes more, state.step aead debug state.drainCall = some next ∧ bytes ≠ [] ∧
        next.handed = state.handed ++ bytes ∧
        EncryptedReader.Expects aead more [] next.reader next.inner ∧
        remaining aead coming state = bytes ++ remaining aead more next := by
  obtain ⟨good, intact⟩ :=
    state.good_call aead debug state.drainCall (Nat.one_pos) coming [] expects
  obtain ⟨msgs, handed, advances, handedEq⟩ :=
    state.call_advances aead debug state.drainCall expects.sound
  have handedIs : (state.call aead debug state.drainCall).2.handed =
      state.handed ++ EncryptedReader.givenBy (state.call aead debug state.drainCall).1 := rfl
  have goes : state.step aead debug state.drainCall =
      some (state.call aead debug state.drainCall).2 ↔
        (state.call aead debug state.drainCall).1 ≠ .waiting := by
    rw [step_eq_some]
    exact ⟨fun run => run.2.1, fun going => ⟨good.calm, going, rfl⟩⟩
  have onlyReady : ∀ event ∈ eventsOf state.drainCall, event = .ready 0 :=
    fun event member => List.eq_of_mem_replicate member
  have enough : (eventsOf state.drainCall).length = state.inner.bytes.length + 1 :=
    List.length_replicate
  generalize state.call aead debug state.drainCall = result at *
  obtain ⟨outcome, next⟩ := result
  obtain ⟨more, split, after⟩ := expects.advance advances intact
  have gave : handed = EncryptedReader.givenBy outcome :=
    List.append_cancel_left (handedEq.symm.trans handedIs)
  have plain : remaining aead coming state = handed ++ remaining aead more next := by
    rw [remaining, remaining, split, aead.openFrames_append, ← List.append_assoc,
      ← advances.plain, ← advances.decryptor, List.append_assoc]
  cases outcome with
  | panicked panic => exact absurd rfl (good.calm panic)
  | failed kind => cases onlyReady _ (good.failed kind rfl).2
  | waiting =>
      have := good.waiting rfl
      omega
  | pending =>
      left
      obtain ⟨noCleartext, hidden, stalled⟩ := good.pending rfl
      have arrived : next.inner.bytes = [] := by
        rcases stalled with isPending | arrived
        · cases onlyReady _ isPending
        · exact arrived
      have rest := after.stream
      rw [arrived, List.append_nil, List.append_nil] at rest
      cases more with
      | nil =>
          rw [plain, gave, remaining, noCleartext]
          rfl
      | cons message others =>
          rw [rest, frames_cons, peekFrame_frame message _
            (after.short message (List.mem_cons_self ..))] at hidden
          cases hidden
  | ready bytes =>
      right
      refine ⟨next, bytes, more, goes.mpr (by simp), ?_, handedIs, after, ?_⟩
      · rcases good.ready bytes rfl with some_ | ⟨amt, isConsume⟩
        · exact some_
        · cases isConsume
      · rw [plain, gave]
        rfl

/-- A caller that polls on until the reader is pending has every byte of the stream. -/
theorem reads_all (aead : StreamAead) (debug : Bool) (state : Reading)
    (coming : List (List UInt8))
    (expects : EncryptedReader.Expects aead coming [] state.reader state.inner) :
    ∃ calls final, runInputs (Reading.step aead debug) calls state = some final ∧
      final.handed = state.handed ++ remaining aead coming state := by
  induction left : (remaining aead coming state).length using Nat.strong_induction_on
    generalizing state coming with
  | _ left ih =>
      subst left
      rcases state.drainCall_cases aead debug coming expects with
        nothing | ⟨next, bytes, more, stepRun, nonempty, handedEq, after, plain⟩
      · exact ⟨[], state, rfl, by rw [nothing, List.append_nil]⟩
      · have positive := List.length_pos_iff.mpr nonempty
        have shorter := congrArg List.length plain
        rw [List.length_append] at shorter
        obtain ⟨calls, final, run, finalHanded⟩ := ih _ (by omega) next more after rfl
        refine ⟨state.drainCall :: calls, final, ?_, ?_⟩
        · rw [runInputs, stepRun]
          exact run
        · rw [finalHanded, handedEq, plain, List.append_assoc]

end Reading
end Gday.Encryption
