import Gday.Encryption.LostCapacity
import Gday.Encryption.TrueEnd

/-! # Taking a stream frame by frame

A caller whose inner reader delivers whole frames can take each of them with its plaintext,
and the reader is as good as new before the next one.  Within one poll it can also go on
behind a frame as long as there is room for the next. -/
set_option autoImplicit false
namespace Gday.Encryption

open Gday.Lib.AsyncStream Gday.Lib.BigEndian Gday.Lib.Framing Gday.Lib.Machine

namespace EncryptedReader

variable {aead : StreamAead} {reader : EncryptedReader}

/-- Nothing is buffered, and no decryption has failed. -/
structure Fresh (reader : EncryptedReader) : Prop where
  sound : reader.Sound
  intact : reader.Intact
  clear : reader.cleartext.unread = []
  sealed : reader.ciphertext.unread = []

theorem withNonce_fresh (sharedKey : Key) (nonce : Nonce) : (withNonce sharedKey nonce).Fresh :=
  ⟨withNonce_sound sharedKey nonce, rfl, rfl, rfl⟩

/-- No ciphertext is buffered, the plaintext that is may have been shown already, and there
is room for an empty chunk. -/
structure Holding (reader : EncryptedReader) : Prop where
  bounded : Bounded maxChunkSize reader
  intact : reader.Intact
  sealed : reader.ciphertext.unread = []

theorem Fresh.holding (fresh : reader.Fresh) : reader.Holding := by
  refine ⟨⟨fresh.sound, ?_, fresh.intact.le⟩, fresh.intact, fresh.sealed⟩
  rw [BytesMut.len, fresh.sound.cleartext.unread_eq_nil.mp fresh.clear]
  decide

theorem Holding.sound (holding : reader.Holding) : reader.Sound := holding.bounded.sound

def receive (reader : EncryptedReader) (chunk : List UInt8) : EncryptedReader :=
  { reader with ciphertext := reader.ciphertext.append chunk }

/-! ## One read without ciphertext -/

theorem Holding.spare (holding : reader.Holding) :
    reader.ciphertext.spareCapacityLen = 2 * maxChunkSize :=
  (holding.sound.ciphertext.spare_of_unread_nil holding.sealed).trans
    holding.sound.ciphertextCapacity

theorem Holding.settled (holding : reader.Holding) : reader.Settled := by
  left
  rw [holding.sealed, holding.spare]
  exact ⟨rfl, by decide⟩

theorem Holding.receive_sound (holding : reader.Holding) (chunk : List UInt8)
    (fits : chunk.length ≤ 2 * maxChunkSize) : (reader.receive chunk).Sound :=
  append_sound reader holding.sound chunk (by rw [holding.spare]; exact fits)

theorem Holding.receive_unread (holding : reader.Holding) (chunk : List UInt8) :
    (reader.receive chunk).ciphertext.unread = chunk := by
  have unread := reader.ciphertext.append_unread holding.sound.ciphertext chunk
  rw [holding.sealed, List.nil_append] at unread
  exact unread

theorem Holding.readStep (holding : reader.Holding) (aead : StreamAead) (debug : Bool)
    (chunk rest : List UInt8) (closed : Bool) (extra : Nat) (length : chunk.length = extra + 1)
    (fits : chunk.length ≤ 2 * maxChunkSize) :
    readStep aead debug (.ready extra) reader ⟨chunk ++ rest, closed⟩ =
      match decryptAllFullChunks aead (reader.receive chunk) with
      | .error panic => (some (.panicked panic), reader.receive chunk, ⟨rest, closed⟩)
      | .ok (final, .error kind) => (some (.failed kind), final, ⟨rest, closed⟩)
      | .ok (final, .ok ()) => (none, final, ⟨rest, closed⟩) := by
  have nonempty : chunk ≠ [] := by
    intro none
    rw [none] at length
    cases length
  have amount : min (extra + 1) reader.ciphertext.spareCapacityLen = chunk.length := by
    rw [holding.spare, ← length]
    exact Nat.min_eq_left fits
  have answer : ByteStream.pollRead ⟨chunk ++ rest, closed⟩ reader.ciphertext.spareCapacityLen
      (.ready extra) = (.filled chunk, ⟨rest, closed⟩) := by
    rw [ByteStream.pollRead, if_neg (by simp [nonempty]), amount]
    simp
  have sealed : (reader.ciphertext.append chunk).data = .ok chunk :=
    (holding.receive_sound chunk fits).ciphertext.data_eq.trans
      (congrArg Except.ok (holding.receive_unread chunk))
  have some_ : (chunk.isEmpty && reader.cleartext.unread.isEmpty) = false := by
    simp [nonempty]
  rw [EncryptedReader.readStep, innerRead, answer]
  simp only [sealed, holding.sound.cleartext.data_eq, some_, Bool.false_eq_true, if_false]
  rfl

theorem Holding.wantsMore (holding : reader.Holding) :
    reader.wantsMore maxChunkSize = .ok true := by
  have few : reader.cleartext.unread.length < maxChunkSize := by
    have len := holding.bounded.len
    rw [HelperBuf.unread_length]
    rw [ciphertextOverhead] at len
    omega
  rw [wantsMore_eq reader holding.sound, holding.spare, decide_eq_true few]
  rfl

theorem Holding.readIfNecessary (holding : reader.Holding) (debug : Bool)
    (events : List ReadEvent) (inner : ByteStream) :
    readIfNecessary aead debug none events reader inner =
      readLoop aead debug maxChunkSize events reader inner := by
  have capacity : reader.cleartext.buf.capacity = maxChunkSize := holding.intact
  rw [EncryptedReader.readIfNecessary, capacity, holding.sound.ciphertextCapacity]
  simp only [decide_true, debugAssert_true,
    holding.settled.decryptAllFullChunks aead holding.sound, bytesAmount, capacity]

/-- The loop goes on with what it decrypted. -/
theorem Holding.reads (holding : reader.Holding) (debug : Bool) (chunk rest : List UInt8)
    (closed : Bool) (extra : Nat) (length : chunk.length = extra + 1)
    (fits : chunk.length ≤ 2 * maxChunkSize) {final : EncryptedReader}
    (decrypted : decryptAllFullChunks aead (reader.receive chunk) = .ok (final, .ok ()))
    (events : List ReadEvent) :
    readLoop aead debug maxChunkSize (.ready extra :: events) reader ⟨chunk ++ rest, closed⟩ =
      readLoop aead debug maxChunkSize events final ⟨rest, closed⟩ := by
  have stepped := holding.readStep aead debug chunk rest closed extra length fits
  rw [decrypted] at stepped
  exact readLoop_goesOn events holding.wantsMore stepped

theorem Holding.fails (holding : reader.Holding) (debug : Bool) (chunk rest : List UInt8)
    (closed : Bool) (extra : Nat) (length : chunk.length = extra + 1)
    (fits : chunk.length ≤ 2 * maxChunkSize) {final : EncryptedReader} {kind : ErrorKind}
    (decrypted : decryptAllFullChunks aead (reader.receive chunk) = .ok (final, .error kind))
    (events : List ReadEvent) :
    readLoop aead debug maxChunkSize (.ready extra :: events) reader ⟨chunk ++ rest, closed⟩ =
      (.failed kind, final, ⟨rest, closed⟩) := by
  have stepped := holding.readStep aead debug chunk rest closed extra length fits
  rw [decrypted] at stepped
  exact readLoop_stops events holding.wantsMore stepped

/-- A part of a frame is kept, and the poll goes on. -/
theorem Fresh.wanting (fresh : reader.Fresh) (chunk : List UInt8)
    (hidden : peekFrame chunk = none) (fits : chunk.length < 2 * maxChunkSize) :
    Wanting maxChunkSize (reader.receive chunk) := by
  have sound := fresh.holding.receive_sound chunk (Nat.le_of_lt fits)
  have room : (reader.receive chunk).ciphertext.spareCapacityLen ≠ 0 := by
    have spare := (reader.receive chunk).ciphertext.spare_add_len
    have grown : (reader.receive chunk).ciphertext.buf.len = chunk.length := by
      refine (reader.ciphertext.append_len chunk).trans ?_
      rw [BytesMut.len, fresh.sound.ciphertext.unread_eq_nil.mp fresh.sealed]
      exact Nat.zero_add _
    rw [sound.ciphertextCapacity, grown] at spare
    omega
  refine ⟨sound, Or.inl ⟨?_, room⟩, ?_, room⟩
  · rw [fresh.holding.receive_unread]
    exact hidden
  · show reader.cleartext.unread.length < maxChunkSize
    rw [fresh.clear]
    decide

/-! ## One frame -/

theorem decryptChunks_nothing (rounds : Nat) (wf : reader.ciphertext.WellFormed)
    (sealed : reader.ciphertext.unread = []) :
    decryptChunks aead rounds reader = .ok (reader, .drained) := by
  cases rounds with
  | zero => rfl
  | succ rounds =>
      rw [decryptChunks, peekCipherChunk_eq _ wf, sealed]
      rfl

/-- What becomes of a frame that is all there is. -/
theorem decryptAllFullChunks_frame (aead : StreamAead) (sound : reader.Sound) (msg : List UInt8)
    (short : msg.length < 2 ^ 32) (only : reader.ciphertext.unread = frame msg)
    (room : msg.length ≤ reader.cleartext.spareCapacityLen) :
    ∃ ciphertext, ciphertext.WellFormed ∧ ciphertext.unread = [] ∧
      ciphertext.buf.capacity = 2 * maxChunkSize ∧ decryptAllFullChunks aead reader =
        .ok (match aead.decryptNextInPlace reader.decryptor msg with
          | none => (reader.refused ciphertext, .error .invalidData)
          | some (plain, stream) => (reader.opened plain stream ciphertext, .ok ())) := by
  have shown : peekFrame reader.ciphertext.unread = some msg := by
    rw [only, ← List.append_nil (frame msg)]
    exact peekFrame_frame msg [] short
  obtain ⟨ciphertext, advanced, wf, split, capacity⟩ :=
    advance_shown reader.ciphertext sound.ciphertext msg shown
  rw [only] at split
  have gone : ciphertext.unread = [] := List.append_right_eq_self.mp split.symm
  have size := capacity.trans sound.ciphertextCapacity
  refine ⟨ciphertext, wf, gone, size, ?_⟩
  obtain ⟨rounds, enough⟩ : ∃ rounds, reader.ciphertext.buf.len = rounds + 1 := by
    have lengths := reader.ciphertext.unread_length
    rw [only, frame_length] at lengths
    exact ⟨reader.ciphertext.buf.len - 1, by omega⟩
  have round := decryptChunk_eq aead reader msg room ciphertext advanced
  rw [decryptAllFullChunks, enough, decryptChunks, peekCipherChunk_eq _ sound.ciphertext, shown]
  simp only [round]
  cases aead.decryptNextInPlace reader.decryptor msg with
  | none => rfl
  | some pair =>
      obtain ⟨plain, stream⟩ := pair
      have spare : ciphertext.spareCapacityLen ≠ 0 := by
        rw [wf.spare_of_unread_nil gone, size]
        decide
      have drained : decryptChunks aead rounds (reader.opened plain stream ciphertext) =
          .ok (reader.opened plain stream ciphertext, .drained) :=
        decryptChunks_nothing rounds wf gone
      simp only [drained]
      exact if_neg spare

theorem room_small {msg : List UInt8} (sound : reader.Sound)
    (room : msg.length ≤ reader.cleartext.spareCapacityLen) :
    (frame msg).length ≤ 2 * maxChunkSize ∧ msg.length < 2 ^ 32 := by
  have spare := reader.cleartext.spare_add_len
  have most := sound.cleartextCapacity
  rw [frame_length]
  rw [maxChunkSize] at most ⊢
  omega

/-- The frame is decrypted behind what is held, and the loop goes on. -/
theorem Holding.takes (holding : reader.Holding) (debug : Bool) (msg tail plain : List UInt8)
    (stream : StreamLE31) (closed : Bool)
    (room : msg.length ≤ reader.cleartext.spareCapacityLen)
    (decrypted : aead.decryptNextInPlace reader.decryptor msg = some (plain, stream)) :
    ∃ next, (∀ events, readLoop aead debug maxChunkSize (.ready (msg.length + 3) :: events) reader
        ⟨frame msg ++ tail, closed⟩ =
          readLoop aead debug maxChunkSize events next ⟨tail, closed⟩) ∧
      next.Holding ∧ next.decryptor = stream ∧
        next.cleartext = reader.cleartext.append plain := by
  obtain ⟨fits, short⟩ := room_small holding.sound room
  obtain ⟨ciphertext, wf, gone, size, run⟩ := decryptAllFullChunks_frame aead
    (holding.receive_sound (frame msg) fits) msg short (holding.receive_unread (frame msg)) room
  have same : aead.decryptNextInPlace (reader.receive (frame msg)).decryptor msg =
      some (plain, stream) := decrypted
  rw [same] at run
  have overhead := aead.decryptNextInPlace_length _ _ _ _ decrypted
  refine ⟨_, holding.reads debug (frame msg) tail closed (msg.length + 3) (frame_length msg) fits
    run, ⟨⟨⟨?_, wf, size, ?_⟩, ?_, ?_⟩, ?_, gone⟩, rfl, rfl⟩
  · exact reader.cleartext.append_wellFormed holding.sound.cleartext plain
  · exact (reader.cleartext.append_capacity plain (by omega)).trans_le
      holding.sound.cleartextCapacity
  · show (reader.cleartext.append plain).buf.len + ciphertextOverhead ≤ maxChunkSize
    have spare := reader.cleartext.spare_add_len
    have most := holding.sound.cleartextCapacity
    rw [HelperBuf.append_len]
    omega
  · exact (reader.cleartext.append_capacity plain (by omega)).trans_le
      holding.sound.cleartextCapacity
  · exact (reader.cleartext.append_capacity plain (by omega)).trans holding.intact

/-- The frame does not decrypt, whatever is held. -/
theorem Holding.refuses (holding : reader.Holding) (debug : Bool) (bad tail : List UInt8)
    (closed : Bool) (room : bad.length ≤ reader.cleartext.spareCapacityLen)
    (failed : aead.decryptNextInPlace reader.decryptor bad = none) (events : List ReadEvent) :
    ∃ ciphertext, ciphertext.WellFormed ∧ ciphertext.unread = [] ∧
      ciphertext.buf.capacity = 2 * maxChunkSize ∧
      readLoop aead debug maxChunkSize (.ready (bad.length + 3) :: events) reader
        ⟨frame bad ++ tail, closed⟩ =
          (.failed .invalidData, reader.refused ciphertext, ⟨tail, closed⟩) := by
  obtain ⟨fits, short⟩ := room_small holding.sound room
  obtain ⟨ciphertext, wf, gone, size, run⟩ := decryptAllFullChunks_frame aead
    (holding.receive_sound (frame bad) fits) bad short (holding.receive_unread (frame bad)) room
  have same : aead.decryptNextInPlace (reader.receive (frame bad)).decryptor bad = none := failed
  rw [same] at run
  exact ⟨ciphertext, wf, gone, size, holding.fails debug (frame bad) tail closed (bad.length + 3)
    (frame_length bad) fits run events⟩

/-- Frames without plaintext are taken on the way. -/
theorem Holding.takes_empty (holding : reader.Holding) (debug : Bool)
    (empties : List (List UInt8)) (tail : List UInt8) (closed : Bool)
    (bare : ∀ msg ∈ empties, msg.length = ciphertextOverhead)
    (opens : aead.Opens reader.decryptor empties) :
    ∃ next, (∀ events, readLoop aead debug maxChunkSize
        (empties.map (fun msg => .ready (msg.length + 3)) ++ events) reader
          ⟨frames empties ++ tail, closed⟩ =
          readLoop aead debug maxChunkSize events next ⟨tail, closed⟩) ∧
      next.Holding ∧ next.decryptor = (aead.openFrames reader.decryptor empties).2 ∧
        next.cleartext.buf.bytes = reader.cleartext.buf.bytes := by
  induction empties generalizing reader with
  | nil => exact ⟨reader, fun events => rfl, holding, rfl, rfl⟩
  | cons msg empties ih =>
      obtain ⟨plain, stream, decrypted, others⟩ := opens
      have size := bare msg List.mem_cons_self
      have overhead := aead.decryptNextInPlace_length _ _ _ _ decrypted
      have nothing : plain = [] := List.length_eq_zero_iff.mp (by omega)
      have room : msg.length ≤ reader.cleartext.spareCapacityLen := by
        have spare := reader.cleartext.spare_add_len
        have len := holding.bounded.len
        rw [show reader.cleartext.buf.capacity = maxChunkSize from holding.intact] at spare
        omega
      obtain ⟨middle, first, middleHolding, decryptor, cleartext⟩ := holding.takes debug msg
        (frames empties ++ tail) plain stream closed room decrypted
      rw [← decryptor] at others
      obtain ⟨next, later, nextHolding, finalDecryptor, bytes⟩ := ih middleHolding
        (fun other member => bare other (List.mem_cons_of_mem _ member)) others
      refine ⟨next, ?_, nextHolding, ?_, ?_⟩
      · intro events
        rw [frames_cons, List.append_assoc, List.map_cons, List.cons_append, first]
        exact later events
      · simp only [StreamAead.openFrames, decrypted]
        rw [finalDecryptor, decryptor]
      · rw [bytes, cleartext, nothing]
        exact List.append_nil _

/-! ## Frame by frame -/

/-- A loop whose inner reader has nothing yet stops where it stands. -/
theorem readLoop_pending (debug : Bool) (sound : reader.Sound) (inner : ByteStream) {wanted : Nat}
    (wanting : reader.wantsMore wanted = .ok true) :
    readLoop aead debug wanted [.pending] reader inner =
      (if reader.cleartext.unread = [] then .pending else .ready false, reader, inner) := by
  have answer : inner.pollRead reader.ciphertext.spareCapacityLen .pending =
      (.pending, inner) := rfl
  apply readLoop_stops [] wanting
  rw [readStep, innerRead, answer]
  simp only [sound.cleartext.data_eq, finishRead_eq debug reader sound, List.isEmpty_iff]
  by_cases none : reader.cleartext.unread = []
  · rw [if_pos none, if_pos none]
  · rw [if_neg none, if_neg none, if_neg fun both => none both.2]

end EncryptedReader

namespace Reading

open EncryptedReader

variable {aead : StreamAead} {debug : Bool}

/-- A step whose call did not fail either. -/
def unfailed (aead : StreamAead) (debug : Bool) (state : Reading) (input : ReaderCall) :
    Option Reading :=
  match state.call aead debug input with
  | (.ready _, next) => some next
  | (.pending, next) => some next
  | _ => none

theorem unfailed_step (state next : Reading) (input : ReaderCall)
    (run : state.unfailed aead debug input = some next) :
    state.step aead debug input = some next ∧
      refusedBy (state.call aead debug input).1 = false := by
  unfold unfailed at run
  unfold step
  generalize state.call aead debug input = result at run ⊢
  obtain ⟨outcome, after⟩ := result
  cases outcome with
  | ready bytes => exact ⟨run, rfl⟩
  | pending => exact ⟨run, rfl⟩
  | failed kind => cases run
  | panicked panic => cases run
  | waiting => cases run

theorem unfailed_run {allowed : Reading → ReaderCall → Prop} {calls : List ReaderCall}
    {state final : Reading}
    (run : RunsWithin (Reading.unfailed aead debug) allowed state calls final) :
    runInputs (Reading.step aead debug) calls state = some final := by
  induction run with
  | nil state => rfl
  | cons state next final input rest permitted stepRun later ih =>
      rw [runInputs, (state.unfailed_step next input stepRun).1]
      exact ih

/-- A `poll_fill_buf` that ends well is a step. -/
theorem unfailed_pollFillBuf {state : Reading} (sound : state.reader.Sound)
    {events : List ReadEvent} {outcome : Outcome Bool} {reader : EncryptedReader}
    {inner : ByteStream}
    (ran : EncryptedReader.readIfNecessary aead debug none events state.reader state.inner =
      (outcome, reader, inner))
    (calm : outcome = .pending ∨ ∃ eof, outcome = .ready eof) :
    state.unfailed aead debug (.pollFillBuf events) = some ⟨reader, inner, state.handed⟩ := by
  simp only [unfailed, call, pollFillBuf_eq aead debug events _ _ sound, ran]
  rcases calm with pending | ⟨eof, ready⟩
  · rw [pending]
    rfl
  · rw [ready]
    rfl

/-- The caller takes one frame and all its plaintext. -/
theorem takes_frame (debug : Bool) (state : Reading) (fresh : state.reader.Fresh)
    (msg tail plain : List UInt8) (next : StreamLE31)
    (bytes : state.inner.bytes = frame msg ++ tail) (small : msg.length ≤ maxChunkSize)
    (decrypted : aead.decryptNextInPlace state.reader.decryptor msg = some (plain, next)) :
    ∃ calls final, RunsWithin (Reading.unfailed aead debug) Reading.Permitted state calls final ∧
      final.reader.Fresh ∧ final.inner = ⟨tail, state.inner.closed⟩ ∧
        final.reader.decryptor = next := by
  have holding := fresh.holding
  have room : msg.length ≤ state.reader.cleartext.spareCapacityLen := by
    rw [fresh.sound.cleartext.spare_of_unread_nil fresh.clear]
    exact small.trans fresh.intact.ge
  obtain ⟨first, loops, held, decryptor, cleartext⟩ := holding.takes debug msg tail plain next
    state.inner.closed room decrypted
  have inner : state.inner = ⟨frame msg ++ tail, state.inner.closed⟩ := by
    rw [← bytes]
  have ran : EncryptedReader.readIfNecessary aead debug none
      [.ready (msg.length + 3), .pending] state.reader state.inner =
      (if first.cleartext.unread = [] then .pending else .ready false, first,
        ⟨tail, state.inner.closed⟩) := by
    rw [holding.readIfNecessary, inner, loops]
    exact readLoop_pending debug held.sound _ held.wantsMore
  have polled := unfailed_pollFillBuf fresh.sound ran (by
    by_cases none : first.cleartext.unread = []
    · exact .inl (if_pos none)
    · exact .inr ⟨false, if_neg none⟩)
  rcases consume_cases aead first ⟨tail, state.inner.closed⟩ held.sound
    first.cleartext.unread.length with ⟨beyond, _⟩ | ⟨final, within, consumed, capacity, advances⟩
  · exact absurd beyond (Nat.lt_irrefl _)
  · have taken : Reading.unfailed aead debug ⟨first, ⟨tail, state.inner.closed⟩, state.handed⟩
        (.consume first.cleartext.unread.length) =
          some ⟨final, ⟨tail, state.inner.closed⟩, state.handed ++
            first.cleartext.unread.take first.cleartext.unread.length⟩ := by
      simp only [Reading.unfailed, call, consumed]
    have permitted : state.Permitted (.pollFillBuf [.ready (msg.length + 3), .pending]) := trivial
    have shown : Reading.Permitted ⟨first, ⟨tail, state.inner.closed⟩, state.handed⟩
        (.consume first.cleartext.unread.length) := Nat.le_refl _
    refine ⟨_, _, .cons state _ _ _ _ permitted polled (.cons _ _ _ _ _ shown taken (.nil _)), ?_,
      rfl, ?_⟩
    · have plainLeft := advances.plain
      have streamLeft := advances.stream
      rw [StreamAead.openFrames, List.append_nil] at plainLeft
      rw [held.sealed, frames_nil, List.nil_append, List.nil_append] at streamLeft
      rw [List.take_length] at plainLeft
      exact ⟨advances.sound, capacity.trans held.intact, List.append_right_eq_self.mp plainLeft,
        List.append_left_eq_self.mp streamLeft.symm⟩
    · exact advances.decryptor.trans decryptor

/-- The caller takes all frames up to the tail. -/
theorem takes_frames (debug : Bool) (msgs : List (List UInt8)) (tail : List UInt8)
    (state : Reading) (fresh : state.reader.Fresh)
    (bytes : state.inner.bytes = frames msgs ++ tail)
    (small : ∀ msg ∈ msgs, msg.length ≤ maxChunkSize)
    (opens : aead.Opens state.reader.decryptor msgs) :
    ∃ calls final, RunsWithin (Reading.unfailed aead debug) Reading.Permitted state calls final ∧
      final.reader.Fresh ∧ final.inner = ⟨tail, state.inner.closed⟩ ∧
        final.reader.decryptor = (aead.openFrames state.reader.decryptor msgs).2 := by
  induction msgs generalizing state with
  | nil =>
      refine ⟨[], state, .nil state, fresh, ?_, rfl⟩
      rw [frames_nil, List.nil_append] at bytes
      rw [← bytes]
  | cons msg rest ih =>
      obtain ⟨plain, next, decrypted, restOpens⟩ := opens
      rw [frames_cons, List.append_assoc] at bytes
      obtain ⟨calls, middle, run, middleFresh, innerIs, decryptor⟩ := state.takes_frame debug fresh
        msg _ plain next bytes (small msg (List.mem_cons_self ..)) decrypted
      rw [← decryptor] at restOpens
      obtain ⟨more, final, later, finalFresh, finalInner, finalDecryptor⟩ :=
        ih middle middleFresh (by rw [innerIs])
          (fun other member => small other (List.mem_cons_of_mem _ member)) restOpens
      refine ⟨calls ++ more, final, run.append later, finalFresh, ?_, ?_⟩
      · rw [finalInner, innerIs]
      · simp only [StreamAead.openFrames, decrypted]
        rw [finalDecryptor, decryptor]

end Reading

end Gday.Encryption
