import Gday.Encryption.CipherWindow

/-! # The reader on hostile input

Nothing authenticates the length that a header announces.  As long as no announced
length is beyond `maxAnnounced`, a full ciphertext buffer that shows no frame has used
at least half of its bytes, which is what `wrap` needs; one byte more, and a stream
exists on which it overruns. -/
set_option autoImplicit false
namespace Gday.Encryption

open Gday.Lib.AsyncStream Gday.Lib.BigEndian Gday.Lib.Framing Gday.Lib.Machine

/-- The longest announced length that `wrap` can bear. -/
def maxAnnounced : Nat := maxChunkSize - 3

namespace EncryptedReader

/-- The lengths on the rest of the stream are bearable. -/
structure Tame (reader : EncryptedReader) (inner : ByteStream) : Prop where
  sound : reader.Sound
  announced : AnnouncedLe maxAnnounced (reader.ciphertext.unread ++ inner.bytes)

theorem Tame.advance {aead : StreamAead} {reader next : EncryptedReader} {inner rest : ByteStream}
    {msgs : List (List UInt8)} {handed : List UInt8} (tame : Tame reader inner)
    (advances : Advances aead reader inner msgs handed next rest) : Tame next rest := by
  refine ⟨advances.sound, ?_⟩
  have announced := tame.announced
  rw [advances.stream] at announced
  exact announced.drop_frames advances.short

theorem Tame.wraps {reader : EncryptedReader} {inner : ByteStream} (tame : Tame reader inner)
    (hidden : peekFrame reader.ciphertext.unread = none)
    (full : reader.ciphertext.spareCapacityLen = 0) :
    reader.ciphertext.unread.length ≤ reader.ciphertext.cursor := by
  have sum := reader.ciphertext.spare_add_len
  have lengths := reader.ciphertext.unread_length
  rw [full, tame.sound.ciphertextCapacity, maxChunkSize] at sum
  rcases length_lt_four_or_header _ hidden with short | header
  · omega
  · by_cases four : 4 ≤ reader.ciphertext.unread.length
    · have small := tame.announced.of_append.header four
      rw [maxAnnounced, maxChunkSize] at small
      omega
    · omega

/-- With no cleartext left there is room for every frame that shows. -/
theorem Tame.fits {reader : EncryptedReader} {inner : ByteStream} (tame : Tame reader inner)
    (intact : reader.Intact) (settled : reader.Settled)
    (full : reader.ciphertext.spareCapacityLen = 0) : reader.cleartext.unread ≠ [] := by
  intro none
  rcases settled with ⟨_, room⟩ | ⟨msg, shown, tight⟩
  · exact room full
  · obtain ⟨short, rest, split⟩ := (peekFrame_eq_some _ msg).mp shown
    have header : 4 ≤ reader.ciphertext.unread.length := by
      rw [split, List.length_append, frame_length]
      omega
    have small := tame.announced.of_append.header header
    rw [split, frame_take_four, ofBe_toBe _ short, maxAnnounced] at small
    rw [tame.sound.cleartext.spare_of_unread_nil none, intact] at tight
    omega

/-- What the loop keeps on a tame stream. -/
structure TameRound (bytesAmount : Nat) (reader : EncryptedReader) (inner : ByteStream) :
    Prop where
  tame : Tame reader inner
  settled : reader.Settled
  intact : reader.Intact
  nonempty : bytesAmount = 0 → reader.cleartext.unread ≠ []

theorem TameRound.readLoop {bytesAmount : Nat} {reader : EncryptedReader} {inner : ByteStream}
    (start : TameRound bytesAmount reader inner) (aead : StreamAead) (debug : Bool)
    (events : List ReadEvent) (panic : Panic) :
    (readLoop aead debug bytesAmount events reader inner).1 ≠ .panicked panic := by
  refine readLoop_rule aead debug bytesAmount (fun _ => TameRound bytesAmount)
    (fun outcome _ _ => outcome ≠ .panicked panic)
    (fun _ _ _ round => round.tame.sound) ?_ ?_ ?_ events reader inner start
  · intro _ next rest round enough
    have some_ : next.cleartext.unread ≠ [] := by
      rcases enough with satisfied | full
      · intro none
        rw [none, List.length_nil] at satisfied
        exact round.nonempty (by omega) none
      · exact round.tame.fits round.intact round.settled full
    rw [finishRead_eq debug next round.tame.sound, if_neg (fun both => some_ both.2)]
    simp
  · intro next rest _ _ _
    simp
  · intro event later middle between result round few _ stepCase
    cases stepCase with
    | innerError refused => simp [RoundEnds]
    | nothing stalled empty => simp [RoundEnds]
    | leftover stalled some_ => simp [RoundEnds]
    | endOfStream gone isClosed sealed clear => simp [RoundEnds]
    | wrapPanic bytes next after received msgs final advances hidden full beyond =>
        have := (round.tame.advance advances).wraps hidden full
        omega
    | continued bytes next after received msgs final advances opens capacity settled =>
        exact ⟨round.tame.advance advances, settled, capacity.trans round.intact,
          fun zero => by omega⟩
    | invalid bytes next after received init bad final advances => simp [RoundEnds]

theorem Tame.readIfNecessary {reader : EncryptedReader} {inner : ByteStream}
    (tame : Tame reader inner) (intact : reader.Intact) (aead : StreamAead) (debug : Bool)
    (wanted : Option Nat) (events : List ReadEvent)
    (nonempty : wanted = some 0 → ∀ next,
      EncryptedReader.decryptAllFullChunks aead reader = .ok (next, .ok ()) →
        next.cleartext.unread ≠ []) (panic : Panic) :
    (readIfNecessary aead debug wanted events reader inner).1 ≠ .panicked panic := by
  have capacity : reader.cleartext.buf.capacity = maxChunkSize := intact
  rw [EncryptedReader.readIfNecessary, capacity, tame.sound.ciphertextCapacity]
  simp only [decide_true, debugAssert_true]
  have decrypts := decryptAllFullChunks_cases aead reader tame.sound
  generalize EncryptedReader.decryptAllFullChunks aead reader = result at decrypts nonempty ⊢
  cases decrypts with
  | wrapPanic msgs next advances hidden full beyond =>
      have := (tame.advance (advances inner)).wraps hidden full
      omega
  | settled msgs next advances opens same settled =>
      refine TameRound.readLoop ⟨tame.advance (advances inner), settled, same.trans capacity, ?_⟩
        aead debug events panic
      intro zero
      cases wanted with
      | none =>
          rw [bytesAmount, capacity] at zero
          cases zero
      | some remaining =>
          rw [bytesAmount, capacity, maxChunkSize] at zero
          have none : remaining = 0 := by omega
          exact nonempty (congrArg some none) next rfl
  | invalid init bad next advances opens failed same => simp

end EncryptedReader

namespace Reading

/-- The calls that a debug build bears: no poll once a decryption error has cost the
cleartext buffer its spare capacity, no `poll_read` of nothing unless the frames in the buffers
give a byte or an error, and no more consumed than is there. -/
def Careful (aead : StreamAead) (state : Reading) : ReaderCall → Prop
  | .pollRead remaining _ =>
      state.reader.Intact ∧ (remaining = 0 →
        (state.reader.framesAhead aead []).2 = .refused ∨ state.reader.clearAhead aead [] ≠ [])
  | .pollFillBuf _ => state.reader.Intact
  | .consume amt => amt ≤ state.reader.cleartext.unread.length

theorem Careful.calm {aead : StreamAead} {state : Reading} {input : ReaderCall}
    (careful : Careful aead state input)
    (tame : EncryptedReader.Tame state.reader state.inner) (debug : Bool) (panic : Panic) :
    (state.call aead debug input).1 ≠ .panicked panic := by
  cases input with
  | pollRead remaining events =>
      obtain ⟨intact, nonempty⟩ := careful
      have gives : some remaining = some 0 → ∀ next,
          EncryptedReader.decryptAllFullChunks aead state.reader = .ok (next, .ok ()) →
            next.cleartext.unread ≠ [] := by
        intro same next decrypted
        obtain ⟨valid, clear⟩ :=
          EncryptedReader.decryptAllFullChunks_clear tame.sound decrypted
        rw [clear]
        exact (nonempty (Option.some.inj same)).resolve_left valid
      have calm := tame.readIfNecessary intact aead debug (some remaining) events gives panic
      have readCase := EncryptedReader.pollRead_cases aead debug remaining events state.reader
        state.inner tame.sound
      simp only [call]
      generalize state.reader.pollRead aead debug remaining events state.inner = result
        at readCase ⊢
      generalize EncryptedReader.readIfNecessary aead debug (some remaining) events state.reader
        state.inner = before at readCase calm
      cases readCase with
      | endOfStream reader rest => simp
      | given reader rest cleartext count countEq run => simp
      | stopped outcome reader rest notReady =>
          cases outcome with
          | ready eof => exact absurd rfl (notReady eof)
          | failed kind => simp [Outcome.map]
          | pending => simp [Outcome.map]
          | panicked other => simpa [Outcome.map] using calm
          | waiting => simp [Outcome.map]
  | pollFillBuf events =>
      have calm := tame.readIfNecessary careful aead debug none events (by simp) panic
      simp only [call, EncryptedReader.pollFillBuf_eq aead debug events _ _ tame.sound]
      generalize EncryptedReader.readIfNecessary aead debug none events state.reader state.inner =
        before at calm
      obtain ⟨outcome, reader, rest⟩ := before
      cases outcome with
      | ready eof => simp [Outcome.map]
      | failed kind => simp [Outcome.map]
      | pending => simp [Outcome.map]
      | panicked other => simpa [Outcome.map] using calm
      | waiting => simp [Outcome.map]
  | consume amt =>
      have within : amt ≤ state.reader.cleartext.unread.length := careful
      rcases EncryptedReader.consume_cases aead state.reader state.inner tame.sound amt with
        ⟨beyond, _⟩ | ⟨next, _, run, _⟩
      · omega
      · simp [call, run]

/-- A tame stream stays tame in every run. -/
theorem run_tame (aead : StreamAead) (debug : Bool) (allowed : Reading → ReaderCall → Prop)
    (calls : List ReaderCall) (state final : Reading)
    (run : RunsWithin (Reading.step aead debug) allowed state calls final)
    (tame : EncryptedReader.Tame state.reader state.inner) :
    EncryptedReader.Tame final.reader final.inner := by
  refine run.invariant (fun after => EncryptedReader.Tame after.reader after.inner) ?_ tame
  intro middle input next _ before stepRun
  obtain ⟨_, _, rfl⟩ := (step_eq_some aead debug middle next input).mp stepRun
  obtain ⟨_, _, advances, _⟩ := middle.call_advances aead debug input before.sound
  exact before.advance advances

/-- A debug build bears no other call. -/
theorem careful_of_calm {aead : StreamAead} {state : Reading} {input : ReaderCall}
    (sound : state.reader.Sound)
    (calm : ∀ panic, (state.call aead true input).1 ≠ .panicked panic) :
    Careful aead state input := by
  have intact : ∀ wanted events, ¬state.reader.Intact →
      EncryptedReader.readIfNecessary aead true wanted events state.reader state.inner =
        (.panicked .debugAssertion, state.reader, state.inner) := by
    intro wanted events broken
    rw [EncryptedReader.Intact] at broken
    rw [EncryptedReader.readIfNecessary, decide_eq_false broken]
    rfl
  cases input with
  | pollRead remaining events =>
      constructor
      · by_contra broken
        refine calm .debugAssertion ?_
        simp only [call, EncryptedReader.pollRead, intact (some remaining) events broken]
      · rintro rfl
        by_contra neither
        obtain ⟨valid, nothing⟩ := not_or.mp neither
        have full : state.reader.Intact := by
          by_contra broken
          refine calm .debugAssertion ?_
          simp only [call, EncryptedReader.pollRead, intact (some 0) events broken]
        have capacity : state.reader.cleartext.buf.capacity = maxChunkSize := full
        have opens : ∃ next, next.Sound ∧
            EncryptedReader.decryptAllFullChunks aead state.reader = .ok (next, .ok ()) := by
          have decrypts := EncryptedReader.decryptAllFullChunks_cases aead state.reader sound
          generalize run : EncryptedReader.decryptAllFullChunks aead state.reader = result
            at decrypts
          cases decrypts with
          | wrapPanic =>
              refine absurd ?_ (calm .sliceIndex)
              rw [call, EncryptedReader.pollRead, EncryptedReader.readIfNecessary, capacity,
                sound.ciphertextCapacity]
              simp only [decide_true, debugAssert_true, run]
          | settled msgs next advances => exact ⟨next, (advances state.inner).sound, rfl⟩
          | invalid =>
              exact absurd (EncryptedReader.decryptAllFullChunks_refused sound run) valid
        obtain ⟨next, sound', decrypted⟩ := opens
        refine calm .debugAssertion ?_
        have none : next.cleartext.unread = [] := by
          rw [(EncryptedReader.decryptAllFullChunks_clear sound decrypted).2]
          exact not_not.mp nothing
        have enough : next.wantsMore 0 = .ok false := by
          rw [EncryptedReader.wantsMore_eq next sound']
          simp
        have finish : next.finishRead true = .panicked .debugAssertion := by
          rw [EncryptedReader.finishRead_eq true next sound', if_pos ⟨rfl, none⟩]
        have zero : state.reader.bytesAmount (some 0) = 0 := Nat.min_zero _
        have panics : EncryptedReader.readIfNecessary aead true (some 0) events state.reader
            state.inner = (.panicked .debugAssertion, next, state.inner) := by
          rw [EncryptedReader.readIfNecessary, capacity, sound.ciphertextCapacity]
          simp only [decide_true, debugAssert_true, decrypted]
          rw [zero, EncryptedReader.readLoop_enough aead true 0 events next state.inner enough,
            finish]
        simp only [call, EncryptedReader.pollRead, panics]
  | pollFillBuf events =>
      show state.reader.Intact
      by_contra broken
      refine calm .debugAssertion ?_
      simp only [call, EncryptedReader.pollFillBuf, intact none events broken]
  | consume amt =>
      rcases EncryptedReader.consume_cases aead state.reader state.inner sound amt with
        ⟨_, run⟩ | ⟨next, within, _⟩
      · exact absurd (by simp only [call, run]) (calm .assertion)
      · exact within

end Reading

/-! ## A stream that overruns `wrap` -/

namespace EncryptedReader

/-- A full buffer of one frame and an unfinished one that is longer than the first. -/
theorem overrun (aead : StreamAead) (reader : EncryptedReader) (sound : reader.Sound)
    (body plain tail : List UInt8) (stream : StreamLE31) (start : reader.ciphertext.cursor = 0)
    (full : reader.ciphertext.spareCapacityLen = 0)
    (contents : reader.ciphertext.buf.bytes = frame body ++ tail) (short : body.length < 2 ^ 32)
    (fits : body.length ≤ reader.cleartext.spareCapacityLen)
    (decrypted : aead.decryptNextInPlace reader.decryptor body = some (plain, stream))
    (hidden : peekFrame tail = none) (longer : body.length + 4 < tail.length) :
    decryptAllFullChunks aead reader = .error .sliceIndex := by
  have length : reader.ciphertext.buf.len = body.length + 4 + tail.length := by
    rw [BytesMut.len, contents, List.length_append, frame_length]
  have unread : reader.ciphertext.unread = frame body ++ tail := by
    rw [HelperBuf.unread, start, List.drop_zero, contents]
  have shown : peekFrame reader.ciphertext.unread = some body := by
    rw [unread]
    exact peekFrame_frame body tail short
  have advanced : reader.ciphertext.advanceCursor (body.length + 4) =
      .ok { reader.ciphertext with cursor := body.length + 4 } := by
    rw [HelperBuf.advanceCursor, start, Nat.zero_add, if_pos (by omega), if_neg (by omega)]
  have rest : HelperBuf.unread { reader.ciphertext with cursor := body.length + 4 } = tail := by
    show reader.ciphertext.buf.bytes.drop (body.length + 4) = tail
    rw [contents]
    exact List.drop_left' (frame_length body)
  have wellFormed : HelperBuf.WellFormed
      { reader.ciphertext with cursor := body.length + 4 } := by
    left
    show body.length + 4 < reader.ciphertext.buf.len
    omega
  obtain ⟨rounds, roundsEq⟩ : ∃ rounds, reader.ciphertext.buf.len = rounds + 1 :=
    ⟨body.length + 3 + tail.length, by omega⟩
  have drained : ∀ next, next.ciphertext = { reader.ciphertext with cursor := body.length + 4 } →
      decryptChunks aead rounds next = .ok (next, .drained) := by
    intro next same
    cases rounds with
    | zero => rfl
    | succ rounds => rw [decryptChunks, same, peekCipherChunk_eq _ wellFormed, rest, hidden]
  rw [decryptAllFullChunks, roundsEq, decryptChunks, peekCipherChunk_eq _ sound.ciphertext, shown]
  simp only [decryptChunk, if_neg (Nat.not_lt.mpr fits), splitOff_len, advanced, decrypted]
  rw [drained _ rfl]
  have stillFull : HelperBuf.spareCapacityLen
      { reader.ciphertext with cursor := body.length + 4 } = 0 := full
  simp only [if_pos stillFull]
  rw [HelperBuf.wrap_error _ wellFormed (by rw [rest]; exact longer)]

/-- The same with a fresh reader, which receives all these bytes at once. -/
theorem overrun_fresh (aead : StreamAead) (debug : Bool) (sharedKey : Key) (nonce : Nonce)
    (bytes body plain tail : List UInt8) (closed : Bool) (stream : StreamLE31)
    (split : bytes = frame body ++ tail) (total : bytes.length = 2 * maxChunkSize)
    (fits : body.length ≤ maxChunkSize)
    (decrypted : aead.decryptNextInPlace (StreamLE31.new sharedKey nonce) body =
      some (plain, stream))
    (hidden : peekFrame tail = none) (longer : body.length + 4 < tail.length) :
    (pollFillBuf aead debug [.ready (2 * maxChunkSize)] (withNonce sharedKey nonce)
      ⟨bytes, closed⟩).1 = .panicked .sliceIndex := by
  have fresh := withNonce_sound sharedKey nonce
  have room : (withNonce sharedKey nonce).ciphertext.spareCapacityLen = 2 * maxChunkSize :=
    Nat.mul_comm ..
  have spareFits : bytes.length ≤ (withNonce sharedKey nonce).ciphertext.spareCapacityLen := by
    rw [room, total]
  have sound := append_sound (withNonce sharedKey nonce) fresh bytes spareFits
  have unread : ((withNonce sharedKey nonce).ciphertext.append bytes).unread = bytes :=
    HelperBuf.append_unread _ fresh.ciphertext bytes
  have spare := HelperBuf.spare_add_len ((withNonce sharedKey nonce).ciphertext.append bytes)
  have empty : (withNonce sharedKey nonce).ciphertext.buf.len = 0 := rfl
  rw [sound.ciphertextCapacity, HelperBuf.append_len, total, empty] at spare
  have full : HelperBuf.spareCapacityLen
      ((withNonce sharedKey nonce).ciphertext.append bytes) = 0 := by omega
  have nonempty : bytes ≠ [] := by
    intro none
    rw [none] at total
    cases total
  have answer : ByteStream.pollRead ⟨bytes, closed⟩
      (withNonce sharedKey nonce).ciphertext.spareCapacityLen (.ready (2 * maxChunkSize)) =
        (.filled bytes, ⟨[], closed⟩) := by
    rw [ByteStream.pollRead, room]
    simp only [if_neg nonempty, Nat.min_eq_right (Nat.le_succ _)]
    rw [List.take_of_length_le (Nat.le_of_eq total), List.drop_eq_nil_of_le (Nat.le_of_eq total)]
  have notBoth : (bytes.isEmpty && (withNonce sharedKey nonce).cleartext.unread.isEmpty) =
      false := by
    rw [Bool.and_eq_false_iff, List.isEmpty_eq_false_iff]
    exact Or.inl nonempty
  have small : body.length < 2 ^ 32 := by
    rw [maxChunkSize] at fits
    omega
  have panics := overrun aead { withNonce sharedKey nonce with
      ciphertext := (withNonce sharedKey nonce).ciphertext.append bytes }
    sound body plain tail stream rfl full split small
    fits decrypted hidden longer
  have data := sound.ciphertext.data_eq
  rw [unread] at data
  have round : readStep aead debug (.ready (2 * maxChunkSize)) (withNonce sharedKey nonce)
      ⟨bytes, closed⟩ = (some (.panicked .sliceIndex),
        { withNonce sharedKey nonce with
          ciphertext := (withNonce sharedKey nonce).ciphertext.append bytes }, ⟨[], closed⟩) := by
    rw [readStep, innerRead, answer]
    simp only [data, fresh.cleartext.data_eq, notBoth, Bool.false_eq_true, if_false, panics]
  have settled : (withNonce sharedKey nonce).Settled := Or.inl ⟨rfl, by rw [room]; decide⟩
  have wants : (withNonce sharedKey nonce).wantsMore maxChunkSize = .ok true := rfl
  have poll : readIfNecessary aead debug none [.ready (2 * maxChunkSize)]
      (withNonce sharedKey nonce) ⟨bytes, closed⟩ = (.panicked .sliceIndex,
        { withNonce sharedKey nonce with
          ciphertext := (withNonce sharedKey nonce).ciphertext.append bytes }, ⟨[], closed⟩) := by
    have amount : (withNonce sharedKey nonce).bytesAmount none = maxChunkSize := rfl
    have decrypts : decryptAllFullChunks aead (withNonce sharedKey nonce) =
        .ok (withNonce sharedKey nonce, .ok ()) := rfl
    have capacity : (withNonce sharedKey nonce).cleartext.buf.capacity = maxChunkSize := rfl
    rw [readIfNecessary, capacity, fresh.ciphertextCapacity]
    simp only [decide_true, debugAssert_true, decrypts]
    rw [amount, readLoop, wants]
    simp only [round]
  rw [pollFillBuf, poll]

end EncryptedReader

/-- A frame of 8187 bytes and the beginning of one of 8190: together 16384 bytes. -/
def overrunBytes : List UInt8 :=
  frame (List.replicate (maxAnnounced - 2) 0) ++
    (toBe (maxAnnounced + 1) ++ List.replicate maxAnnounced 0)

theorem overrunBytes_length : overrunBytes.length = 2 * maxChunkSize := by
  rw [overrunBytes, List.length_append, frame_length, List.length_append, toBe_length,
    List.length_replicate, List.length_replicate, maxAnnounced, maxChunkSize]

theorem overrun_hidden : peekFrame (toBe (maxAnnounced + 1) ++ List.replicate maxAnnounced 0) =
    none := by
  have header : (toBe (maxAnnounced + 1) ++ List.replicate maxAnnounced 0).take 4 =
      toBe (maxAnnounced + 1) := List.take_left' (toBe_length _)
  rw [peekFrame, header, ofBe_toBe _ (by decide), List.length_append, toBe_length,
    List.length_replicate, if_pos (Nat.le_add_right ..), if_neg (by omega)]

theorem overrunBytes_announced (limit : Nat) (beyond : maxAnnounced < limit) :
    AnnouncedLe limit overrunBytes := by
  have bodyLength : (List.replicate (maxAnnounced - 2) (0 : UInt8)).length = maxAnnounced - 2 :=
    List.length_replicate
  refine AnnouncedLe.cons (by omega) (by rw [bodyLength]; decide) ?_
  intro bodies rest split short header
  cases bodies with
  | nil =>
      rw [frames_nil, List.nil_append] at split
      have first : rest.take 4 = toBe (maxAnnounced + 1) := by
        rw [← split]
        exact List.take_left' (toBe_length _)
      rw [first, ofBe_toBe _ (by decide)]
      omega
  | cons body others =>
      have hidden := overrun_hidden
      rw [split, frames_cons, List.append_assoc,
        peekFrame_frame body _ (short body (List.mem_cons_self ..))] at hidden
      cases hidden

theorem overrunBytes_panics (debug : Bool) :
    (EncryptedReader.pollFillBuf paddingAead debug [.ready (2 * maxChunkSize)]
      (EncryptedReader.withNonce [] []) ⟨overrunBytes, false⟩).1 = .panicked .sliceIndex := by
  have bodyLength : (List.replicate (maxAnnounced - 2) (0 : UInt8)).length = maxAnnounced - 2 :=
    List.length_replicate
  refine EncryptedReader.overrun_fresh paddingAead debug [] [] overrunBytes _ _ _ false _ rfl
    overrunBytes_length (by rw [bodyLength]; decide)
    (paddingAead_opens _ _ (by decide) (by rw [bodyLength]; decide)) overrun_hidden ?_
  rw [bodyLength, List.length_append, toBe_length, List.length_replicate, maxAnnounced,
    maxChunkSize]
  omega

def overrunReading : Reading := ⟨EncryptedReader.withNonce [] [], ⟨overrunBytes, false⟩, []⟩

theorem overrunReading_panics (debug : Bool) :
    (overrunReading.call paddingAead debug (.pollFillBuf [.ready (2 * maxChunkSize)])).1 =
      .panicked .sliceIndex := by
  simp only [Reading.call, overrunReading]
  exact overrunBytes_panics debug

/-- Runs of careful calls never panic, and a debug build panics on every other call, if and
only if the announced lengths are bounded by `maxAnnounced` or less. -/
theorem never_panics_iff (limit : Nat) :
    (∀ (aead : StreamAead) (sharedKey : Key) (nonce : Nonce) (inner : ByteStream)
        (calls : List ReaderCall) (state : Reading), AnnouncedLe limit inner.bytes →
      RunsWithin (Reading.step aead true) (Reading.Careful aead)
        ⟨EncryptedReader.withNonce sharedKey nonce, inner, []⟩ calls state →
      ∀ input, (∀ panic, (state.call aead true input).1 ≠ .panicked panic) ↔
        state.Careful aead input) ↔
      limit ≤ maxAnnounced := by
  constructor
  · intro calm
    by_contra beyond
    have announced := overrunBytes_announced limit (by omega)
    have careful : overrunReading.Careful paddingAead
        (.pollFillBuf [.ready (2 * maxChunkSize)]) := rfl
    exact (calm paddingAead [] [] ⟨overrunBytes, false⟩ [] overrunReading announced
      (.nil overrunReading) _).mpr careful .sliceIndex (overrunReading_panics true)
  · intro bounded aead sharedKey nonce inner calls state announced run input
    have fresh : EncryptedReader.Tame (EncryptedReader.withNonce sharedKey nonce) inner :=
      ⟨EncryptedReader.withNonce_sound sharedKey nonce, fun bodies rest split short header =>
        Nat.le_trans (announced bodies rest split short header) bounded⟩
    have tame := Reading.run_tame aead true _ calls _ state run fresh
    exact ⟨Reading.careful_of_calm tame.sound, fun careful => careful.calm tame true⟩

/-- A stream of unfinished frames, a poll after a decryption error and an empty buffer each
make the reader panic. -/
theorem reader_panics :
    (∀ debug, (overrunReading.call paddingAead debug
        (.pollFillBuf [.ready (2 * maxChunkSize)])).1 = .panicked .sliceIndex) ∧
      (∃ state, (Reading.call paddingAead true
          ⟨EncryptedReader.withNonce [] [], ⟨[0, 0, 0, 1, 5], false⟩, []⟩
          (.pollRead 1 [.ready 9])) = (.failed .invalidData, state) ∧
        (state.call paddingAead true (.pollRead 1 [])).1 = .panicked .debugAssertion) ∧
      (Reading.call paddingAead true ⟨EncryptedReader.withNonce [] [], ⟨[], false⟩, []⟩
        (.pollRead 0 [])).1 = .panicked .debugAssertion :=
  ⟨overrunReading_panics, ⟨_, Prod.ext (by decide +kernel) rfl, by decide +kernel⟩,
    by decide +kernel⟩

end Gday.Encryption
